import SimpleRpc.Rpc.WriteEvents
import Mathlib.Data.Finset.Basic

/-!
# `PollThread`

A PollThread takes a reference to each Pollable that is added. `remove` only puts it into
`pending_remove_`; the poll thread gives the reference back after it has walked the events that
`epoll_wait` has returned, because these are pointers to Pollables.

## Layers

- **Kernel**: `epoll` maps the numbers of open sockets to the pointers they were added with
- **Code**: `PollThread.step`, one critical section or system call of `add`, `remove` and `poll_loop`
- **System**: `PollThread.Guard`, any number of calls of `add` and `remove` at a time, owners that
  close sockets and open new ones under the same numbers, and the poll thread
- **Invariant**: `PollThread.Inv`, with an account of the references to each Pollable

## Main results

- `inv_init`: the invariant holds when the PollThread is made
- `countP_become`: what calls hold, when one of them goes on

## Model

A Pollable has one socket at a time, which is registered once and closed by its owner when it is not
in `poll_set_`; the kernel then forgets the number. `remove` meets a registration whose `add` has
returned. The calls in progress are a list, whoever makes them. The `assert`s of `remove`, which a
release build leaves out, are left out.
-/

namespace SimpleRpc.Rpc

open SimpleRpc.Lib SimpleRpc.Base

/-! ## The state -/

/-- A call of `add` or `remove` in progress. -/
inductive PollCall (π : Type) where
  /-- `add` has its reference, and what `poll_mode()` and `fd()` have returned -/
  | adding (p : π) (mode : Mode) (fd : Nat)
  /-- `add` is in front of `epoll_ctl` -/
  | watching (p : π) (fd : Nat)
  | removing (p : π)
  /-- `remove` has found the Pollable, and is in front of `pending_remove_.insert(poll);` -/
  | retiring (p : π)
  deriving DecidableEq

/-- Where `poll_loop` is. -/
inductive LoopAt (π : Type) where
  /-- in front of `epoll_wait` -/
  | polling
  /-- in front of the rest of `evlist` -/
  | walking (events : List π)
  /-- in the handlers of a Pollable -/
  | handling (p : π) (events : List π)
  /-- in front of the rest of `remove_poll` -/
  | draining (polls : List π)
  /-- in front of `l_.lock();`, with `fd` -/
  | deleting (p : π) (fd : Nat) (polls : List π)
  /-- in front of `poll->release();` -/
  | releasing (p : π) (polls : List π)

namespace LoopAt

variable {π : Type}

/-- The Pollables of `evlist` that are still to be used. -/
def events : LoopAt π → List π
  | .walking events => events
  | .handling p events => p :: events
  | _ => []

/-- The Pollables of `remove_poll` whose number may still be known to `epoll`. -/
def undeleted : LoopAt π → List π
  | .draining polls => polls
  | .deleting p _ polls => p :: polls
  | .releasing _ polls => polls
  | _ => []

/-- The Pollables of `remove_poll` that are still to be released. -/
def unreleased : LoopAt π → List π
  | .draining polls => polls
  | .deleting p _ polls | .releasing p polls => p :: polls
  | _ => []

end LoopAt

/-- A PollThread, with its Pollables, and what the kernel knows about their sockets. -/
structure PollThread (π : Type) where
  pollSet : Finset π
  mode : Nat → Option Mode
  pendingRemove : Finset π
  calls : List (PollCall π)
  loop : LoopAt π
  /-- `poll->fd()` -/
  fd : π → Nat
  refCnt : π → Nat
  /-- the Pollable whose socket is open under a number -/
  owner : Nat → Option π
  /-- `data.ptr` of a number that was added -/
  epoll : Nat → Option π
  /-- ghost: the socket of the Pollable was not registered yet -/
  unused : π → Bool
  /-- ghost: the references that `add` has taken -/
  adds : π → Nat
  /-- ghost: the references that `poll_loop` has released -/
  releases : π → Nat
  /-- ghost: the references of others -/
  others : π → Nat
  /-- ghost: how often `pending_remove_` had the Pollable already -/
  lost : π → Nat

/-- One step. -/
inductive PollOp (π : Type) where
  /-- `add` up to `l_.lock();` -/
  | startAdd (p : π) (mode : Mode)
  /-- the critical section of `add` -/
  | insert (p : π) (mode : Mode) (fd : Nat)
  /-- `epoll_ctl(poll_fd_, EPOLL_CTL_ADD, fd, &ev)` -/
  | watch (p : π) (fd : Nat)
  | startRemove (p : π)
  /-- the first critical section of `remove` -/
  | erase (p : π)
  /-- the second one -/
  | retire (p : π)
  /-- the kernel gives a number to the new socket of a Pollable -/
  | openFd (p : π) (fd : Nat)
  /-- `::close(fd)` by the owner -/
  | closeFd (p : π) (fd : Nat)
  /-- `p->ref_copy()` by somebody else -/
  | refCopy (p : π)
  /-- `p->release()` by somebody else -/
  | dropRef (p : π)
  /-- `epoll_wait` returns -/
  | wait (events : List π)
  /-- `Pollable* poll = (Pollable *) evlist[i].data.ptr;` -/
  | take
  /-- the handlers have returned -/
  | handled
  /-- `list<Pollable*> remove_poll(..); pending_remove_.clear();` -/
  | drain (polls : List π)
  /-- `int fd = poll->fd();` -/
  | readFd
  /-- the critical section of the drain -/
  | delete
  /-- `poll->release();` -/
  | release
  /-- on to the next `epoll_wait` -/
  | again

namespace PollThread

variable {π : Type} [DecidableEq π]

omit [DecidableEq π] in
/-- Nothing is registered; the Pollables are referred to by others. -/
def init (others : π → Nat) : PollThread π where
  pollSet := ∅
  mode _ := none
  pendingRemove := ∅
  calls := []
  loop := .polling
  fd _ := 0
  refCnt := others
  owner _ := none
  epoll _ := none
  unused _ := false
  adds _ := 0
  releases _ := 0
  others := others
  lost _ := 0

/-! ## The code -/

/-- A call goes on, or returns. -/
def become (s : PollThread π) (call : PollCall π) (next : List (PollCall π)) : PollThread π :=
  { s with calls := next ++ s.calls.erase call }

/-- `PollThread::add` has inserted the Pollable. -/
def inserted (s : PollThread π) (p : π) (mode : Mode) (fd : Nat) : PollThread π :=
  { s with pollSet := insert p s.pollSet, mode := Function.update s.mode fd (some mode) }

/-- `poll_set_.erase(poll); mode_.erase(poll->fd());` -/
def erased (s : PollThread π) (p : π) : PollThread π :=
  { s with pollSet := s.pollSet.erase p, mode := Function.update s.mode (s.fd p) none }

/-- `pending_remove_.insert(poll);` -/
def retired (s : PollThread π) (p : π) : PollThread π :=
  { s with pendingRemove := insert p s.pendingRemove
           lost := if p ∈ s.pendingRemove then Function.update s.lost p (s.lost p + 1) else s.lost }

/-- What each step does. -/
def step (s : PollThread π) : PollOp π → Except Fault (PollThread π)
  | .startAdd p mode =>
    pure { s with refCnt := Function.update s.refCnt p (s.refCnt p + 1)
                  adds := Function.update s.adds p (s.adds p + 1)
                  unused := Function.update s.unused p false
                  calls := .adding p mode (s.fd p) :: s.calls }
  | .insert p mode fd => do
    verify (p ∉ s.pollSet)
    verify (s.mode fd = none)
    pure ((s.inserted p mode fd).become (.adding p mode fd) [.watching p fd])
  | .watch p fd => do
    -- the number is open and not known yet
    verify (s.owner fd ≠ none ∧ s.epoll fd = none)
    pure ({ s with epoll := Function.update s.epoll fd (some p) }.become (.watching p fd) [])
  | .startRemove p => pure { s with calls := .removing p :: s.calls }
  | .erase p =>
    if p ∈ s.pollSet then pure ((s.erased p).become (.removing p) [.retiring p])
    else pure (s.become (.removing p) [])
  | .retire p => pure ((s.retired p).become (.retiring p) [])
  | .openFd p fd =>
    pure { s with owner := Function.update s.owner fd (some p), fd := Function.update s.fd p fd
                  unused := Function.update s.unused p true }
  | .closeFd _ fd =>
    pure { s with owner := Function.update s.owner fd none, epoll := Function.update s.epoll fd none }
  | .refCopy p =>
    pure { s with refCnt := Function.update s.refCnt p (s.refCnt p + 1)
                  others := Function.update s.others p (s.others p + 1) }
  | .dropRef p => do
    verify (0 < s.refCnt p)
    pure { s with refCnt := Function.update s.refCnt p (s.refCnt p - 1)
                  others := Function.update s.others p (s.others p - 1) }
  | .wait events => pure { s with loop := .walking events }
  | .take =>
    match s.loop with
    | .walking (p :: events) => pure { s with loop := .handling p events }
    | _ => pure s
  | .handled =>
    match s.loop with
    | .handling _ events => pure { s with loop := .walking events }
    | _ => pure s
  | .drain polls => pure { s with pendingRemove := ∅, loop := .draining polls }
  | .readFd =>
    match s.loop with
    | .draining (p :: polls) => pure { s with loop := .deleting p (s.fd p) polls }
    | _ => pure s
  | .delete =>
    match s.loop with
    | .deleting p fd polls =>
      -- only remove the fd when it is not immediately added again
      if s.mode fd = none then
        pure { s with epoll := Function.update s.epoll fd none, loop := .releasing p polls }
      else pure { s with loop := .releasing p polls }
    | _ => pure s
  | .release =>
    match s.loop with
    | .releasing p polls => do
      verify (0 < s.refCnt p)
      pure { s with refCnt := Function.update s.refCnt p (s.refCnt p - 1)
                    releases := Function.update s.releases p (s.releases p + 1)
                    loop := .draining polls }
    | _ => pure s
  | .again => pure { s with loop := .polling }

/-! ## The system -/

omit [DecidableEq π] in
/-- An `add` of the Pollable is in progress. -/
def Adding (s : PollThread π) (p : π) : Prop :=
  ∃ call ∈ s.calls, (∃ mode fd, call = .adding p mode fd) ∨ ∃ fd, call = .watching p fd

/-- When a step can be taken. -/
def Guard (s : PollThread π) : PollOp π → Prop
  | .startAdd p _ => 0 < s.others p ∧ s.owner (s.fd p) = some p ∧ s.unused p = true
  | .insert p mode fd => .adding p mode fd ∈ s.calls
  | .watch p fd => .watching p fd ∈ s.calls
  | .startRemove _ => True
  | .erase p => .removing p ∈ s.calls ∧ ¬ s.Adding p
  | .retire p => .retiring p ∈ s.calls
  | .openFd p fd => s.owner fd = none ∧ ∀ fd', s.owner fd' ≠ some p
  | .closeFd p fd => s.owner fd = some p ∧ p ∉ s.pollSet ∧ ¬ s.Adding p
  | .refCopy p | .dropRef p => 0 < s.others p
  | .wait events => s.loop = .polling ∧ ∀ p ∈ events, ∃ fd, s.epoll fd = some p
  | .take => ∃ p events, s.loop = .walking (p :: events)
  | .handled => ∃ p events, s.loop = .handling p events
  | .drain polls => s.loop = .walking [] ∧ polls.Nodup ∧ ∀ p, p ∈ polls ↔ p ∈ s.pendingRemove
  | .readFd => ∃ p polls, s.loop = .draining (p :: polls)
  | .delete => ∃ p fd polls, s.loop = .deleting p fd polls
  | .release => ∃ p polls, s.loop = .releasing p polls
  | .again => s.loop = .draining []

/-- No Pollable is removed a second time before the poll thread has seen the first. -/
def Spaced (s : PollThread π) : PollOp π → Prop
  | .retire p => p ∉ s.pendingRemove
  | _ => True

/-- A step that can be taken and satisfies `fit`. -/
def Next (fit : PollThread π → PollOp π → Prop) (s : PollThread π) (op : PollOp π)
    (s' : PollThread π) : Prop :=
  s.Guard op ∧ fit s op ∧ s.step op = .ok s'

omit [DecidableEq π] in
/-- The Pollable is in `poll_set_`, in `pending_remove_` or on the way from one to the other. -/
def Registered (s : PollThread π) (p : π) : Prop :=
  p ∈ s.pollSet ∨ p ∈ s.pendingRemove ∨ .retiring p ∈ s.calls

end PollThread

/-! ## The invariant -/

namespace PollCall

variable {π : Type} [DecidableEq π]

/-- The call is an `add` of the Pollable. -/
def adds (p : π) : PollCall π → Bool
  | .adding q _ _ | .watching q _ => q = p
  | .removing _ | .retiring _ => false

/-- The call holds the reference of the PollThread. -/
def pins (p : π) : PollCall π → Bool
  | .adding q _ _ | .retiring q => q = p
  | .watching _ _ | .removing _ => false

end PollCall

namespace PollThread

variable {π : Type} [DecidableEq π]

/-- The places that a Pollable takes in a set of Pollables. -/
def places (set : Finset π) (p : π) : Nat :=
  if p ∈ set then 1 else 0

theorem places_of_mem {set : Finset π} {p : π} (h : p ∈ set) : places set p = 1 :=
  if_pos h

theorem places_of_not_mem {set : Finset π} {p : π} (h : p ∉ set) : places set p = 0 :=
  if_neg h

@[simp] theorem places_empty (p : π) : places ∅ p = 0 :=
  places_of_not_mem (Finset.notMem_empty p)

@[simp] theorem places_insert_self (set : Finset π) (p : π) : places (insert p set) p = 1 :=
  places_of_mem (Finset.mem_insert_self p set)

@[simp] theorem places_erase_self (set : Finset π) (p : π) : places (set.erase p) p = 0 :=
  places_of_not_mem (Finset.notMem_erase p set)

theorem places_insert_of_ne (set : Finset π) {p q : π} (h : q ≠ p) :
    places (insert p set) q = places set q := by
  simp [places, h]

theorem places_erase_of_ne (set : Finset π) {p q : π} (h : q ≠ p) :
    places (set.erase p) q = places set q := by
  simp [places, h]

/-- What is known about sockets: what is registered is open. -/
structure Wired (s : PollThread π) : Prop where
  owner_fd : ∀ fd p, s.owner fd = some p → s.fd p = fd
  set_owner : ∀ p ∈ s.pollSet, s.owner (s.fd p) = some p ∧ s.mode (s.fd p) ≠ none
  mode_set : ∀ fd, s.mode fd ≠ none → ∃ p ∈ s.pollSet, s.fd p = fd
  adding : ∀ p mode fd, .adding p mode fd ∈ s.calls →
    s.owner fd = some p ∧ p ∉ s.pollSet ∧ s.epoll fd = none
  watching : ∀ p fd, .watching p fd ∈ s.calls →
    s.owner fd = some p ∧ p ∈ s.pollSet ∧ s.epoll fd = none
  single : ∀ p, s.calls.countP (PollCall.adds p) ≤ 1
  unused : ∀ p, s.unused p = true →
    p ∉ s.pollSet ∧ s.calls.countP (PollCall.adds p) = 0 ∧ ∀ fd, s.epoll fd ≠ some p
  epoll_owner : ∀ fd p, s.epoll fd = some p → s.owner fd = some p

/-- A Pollable that `epoll` knows is registered, or the poll thread is about to delete its number;
    those of `evlist` are registered. -/
structure Covered (s : PollThread π) : Prop where
  known : ∀ fd p, s.epoll fd = some p → s.Registered p ∨ p ∈ s.loop.undeleted
  deleting : ∀ p fd polls, s.loop = .deleting p fd polls →
    ∀ fd', s.epoll fd' = some p → fd' = fd ∨ s.Registered p
  events : ∀ p ∈ s.loop.events, s.Registered p

/-- The account of references. -/
structure Counted (s : PollThread π) : Prop where
  account : ∀ p, s.adds p = s.releases p + places s.pollSet p + places s.pendingRemove p +
    s.calls.countP (PollCall.pins p) + s.loop.unreleased.count p + s.lost p
  refs : ∀ p, s.refCnt p + s.releases p = s.others p + s.adds p

structure Inv (s : PollThread π) : Prop where
  wired : s.Wired
  covered : s.Covered
  counted : s.Counted

theorem inv_init (others : π → Nat) : (init others).Inv where
  wired := by
    constructor <;> simp [init]
  covered := by
    constructor <;> simp [init, LoopAt.events]
  counted := by
    constructor <;> simp [init, LoopAt.unreleased]

section Calls

theorem of_update_none {β : Type} {f : Nat → Option β} {fd fd' : Nat} {b : β}
    (h : Function.update f fd none fd' = some b) : f fd' = some b ∧ fd' ≠ fd := by
  by_cases hfd : fd' = fd
  · simp [hfd] at h
  · exact ⟨by simpa [hfd] using h, hfd⟩

theorem update_none {β : Type} {f : Nat → Option β} (fd : Nat) {fd' : Nat} (h : f fd' = none) :
    Function.update f fd none fd' = none := by
  by_cases hfd : fd' = fd
  · simp [hfd]
  · simpa [hfd] using h

variable {s : PollThread π} {call : PollCall π} {next : List (PollCall π)}

/-- A call that goes on leaves the others. -/
theorem mem_become {other : PollCall π} (h : other ∈ s.calls) (hne : other ≠ call) :
    other ∈ (s.become call next).calls :=
  List.mem_append_right _ ((List.mem_erase_of_ne hne).mpr h)

theorem of_mem_become {other : PollCall π} (h : other ∈ (s.become call next).calls) :
    other ∈ next ∨ other ∈ s.calls := by
  obtain hnew | hold := List.mem_append.mp h
  · exact .inl hnew
  · exact .inr (List.mem_of_mem_erase hold)

theorem countP_become (next : List (PollCall π)) (hcall : call ∈ s.calls) (q : PollCall π → Bool) :
    (s.become call next).calls.countP q + (if q call then 1 else 0) =
      next.countP q + s.calls.countP q := by
  change (next ++ s.calls.erase call).countP q + _ = _
  rw [List.countP_append, (List.perm_cons_erase hcall).countP_eq, List.countP_cons]
  omega

/-- A call that goes on as one of the same kind. -/
theorem countP_become_eq (hcall : call ∈ s.calls) {q : PollCall π → Bool}
    (hnext : next.countP q = if q call then 1 else 0) :
    (s.become call next).calls.countP q = s.calls.countP q := by
  have hcount := countP_become next hcall q
  omega

theorem countP_become_le (hcall : call ∈ s.calls) {q : PollCall π → Bool}
    (hnext : next.countP q ≤ if q call then 1 else 0) :
    (s.become call next).calls.countP q ≤ s.calls.countP q := by
  have hcount := countP_become next hcall q
  omega

end Calls

end PollThread

end SimpleRpc.Rpc
