import SimpleRpc.Lib.Machine
import Mathlib.Data.Fintype.Sum
import Mathlib.Tactic.DeriveFintype

/-!
# Closing a Connection that is in Use

One TCP connection, as a `Client` or a `ServerTcpConnection` has it, between the poll thread, which
runs `handle_read`, `handle_write` and `handle_error` on it, and any number of other threads, which
run `close` (from `close_and_release` or `~Server`) and put messages into `out_`. Every test of
`status_`, every operation on a lock and every system call is a step of its own.

## Layers

- **Code**: `Connection.effect`, the steps of `handle_read`, `handle_write` and of the two `close`
- **System**: `Connection.Guard`, any interleaving of these
- **Invariant**: `Connection.Inv`, with `Connection.Owned` for what `sconns_l_` protects

## Main results

- `descriptor_respected_of_careful`: no `::read`, `::write` or second `::close` of `sock_` follows
  a `::close(sock_)`, in the runs in which nobody relies on an earlier look at `status_` by then

## Model

`out_` is the number of bytes in it. The state of `PollMgr` and the calls of Futures are left out:
they neither delay nor issue a system call on `sock_`.
-/

namespace SimpleRpc.Rpc

open SimpleRpc.Lib

/-- Whose connection it is. -/
inductive Side where
  /-- a `Client` -/
  | client
  /-- a `ServerTcpConnection` -/
  | server
  deriving DecidableEq

/-- The thread of `PollMgr` that watches `sock_`, or another thread. -/
inductive Thread (κ : Type) where
  | poll
  | user (u : κ)
  deriving DecidableEq, Fintype

/-- The functions that begin with a look at `status_`. -/
inductive Entry where
  | handleRead
  | handleWrite
  /-- `close`, which is also `handle_error` -/
  | close
  deriving DecidableEq

/-- Where a thread is. -/
inductive Pc where
  | idle
  /-- `handle_read`, before a `::read` -/
  | reading
  /-- `handle_write`, before `out_l_.lock()` -/
  | lockingOut
  /-- `handle_write`, in the loop of `write_to_fd` -/
  | writing
  /-- `handle_write`, after `write_to_fd` -/
  | written
  /-- between `begin_request` and `end_request`, or `begin_reply` and `end_reply` -/
  | producing
  /-- `ServerTcpConnection::close`, before `sconns_l_.lock()` -/
  | lockingConns
  /-- `ServerTcpConnection::close`, before `sconns_.find(this)` -/
  | searching
  /-- `ServerTcpConnection::close` has not found the connection -/
  | leaving
  /-- `ServerTcpConnection::close` has found the connection -/
  | erasing
  /-- `close`, before `pollmgr_->remove(this)` -/
  | removing
  /-- `ServerTcpConnection::close`, before `sconns_l_.unlock()` -/
  | unlocking
  /-- `close`, before `status_ = CLOSED` -/
  | marking
  /-- `close`, before `::close(sock_)` -/
  | closingFd
  deriving DecidableEq

/-- The thread has found `status_ == CONNECTED`, and is not behind the last system call on `sock_` of
    the function yet: not at the end of the loop of `read_from_fd` or `write_to_fd`, also when `out_` is
    empty and no `::write` follows, and in front of `::close(sock_)`. -/
def Pc.Bound : Pc → Prop
  | .reading | .lockingOut | .writing | .removing | .closingFd => True
  | _ => False

/-- The thread has taken the connection out of `sconns_`. -/
def Pc.Owner : Pc → Prop
  | .removing | .unlocking | .marking | .closingFd => True
  | _ => False

/-- The thread holds `sconns_l_`. -/
def Pc.Inside : Pc → Prop
  | .searching | .leaving | .erasing | .removing | .unlocking => True
  | _ => False

instance : DecidablePred Pc.Bound := fun pc => by
  cases pc <;> unfold Pc.Bound <;> infer_instance

/-- A connection and the threads that use it; the threads besides the poll thread are named
    by `κ`. -/
structure Connection (κ : Type) where
  /-- `status_ == CONNECTED` -/
  connected : Bool
  /-- `this` is in `server_->sconns_` -/
  listed : Bool
  /-- who holds `server_->sconns_l_` -/
  sconnsL : Option (Thread κ)
  /-- who holds `out_l_` -/
  outL : Option (Thread κ)
  /-- `out_.content_size()` -/
  out : Nat
  pcs : Thread κ → Pc
  /-- ghost: how often `::close(sock_)` was executed -/
  closes : Nat
  /-- ghost: how often `::read` or `::write` was called on `sock_` after that -/
  strays : Nat

/-- One step of one thread. -/
inductive ConnOp (κ : Type) where
  /-- the test of `status_` at the beginning of a function -/
  | test (t : Thread κ) (f : Entry)
  /-- one `::read`; the loop of `read_from_fd` ends if it has no bytes -/
  | read (t : Thread κ) (more : Bool)
  /-- `out_l_.lock();` of `handle_write` -/
  | lockOut (t : Thread κ)
  /-- one `::write`, that takes `n` bytes -/
  | write (t : Thread κ) (n : Nat)
  /-- the loop of `write_to_fd` finds `out_` empty -/
  | drained (t : Thread κ)
  /-- `out_l_.unlock();` of `handle_write` -/
  | unlockOut (t : Thread κ)
  /-- `begin_request` or `begin_reply` -/
  | beginMessage (t : Thread κ)
  /-- `*this << ..;` -/
  | put (t : Thread κ) (n : Nat)
  /-- `end_request` or `end_reply` -/
  | endMessage (t : Thread κ)
  /-- `sconns_l_.lock();` -/
  | lockConns (t : Thread κ)
  /-- `sconns_.find(this)` -/
  | search (t : Thread κ)
  /-- `sconns_.erase(it);` -/
  | erase (t : Thread κ)
  /-- `pollmgr_->remove(this);` -/
  | remove (t : Thread κ)
  /-- `sconns_l_.unlock();` -/
  | unlockConns (t : Thread κ)
  /-- `status_ = CLOSED;` -/
  | mark (t : Thread κ)
  /-- `::close(sock_);` -/
  | closeFd (t : Thread κ)
  deriving DecidableEq

namespace Connection

variable {κ : Type}

/-- A connection that is registered at `PollMgr`, and on the server in `sconns_`. -/
def init (out : Nat) : Connection κ :=
  ⟨true, true, none, none, out, fun _ => .idle, 0, 0⟩

/-! ## The code -/

section Code

variable [DecidableEq κ] (side : Side)

/-- The thread is at another place. -/
def goto (s : Connection κ) (t : Thread κ) (pc : Pc) : Connection κ :=
  { s with pcs := Function.update s.pcs t pc }

/-- A `::read` or `::write` on `sock_`. -/
def io (s : Connection κ) : Connection κ :=
  { s with strays := s.strays + if s.closes = 0 then 0 else 1 }

/-- Where a function goes on after its test of `status_`. -/
def entered (connected : Bool) : Entry → Pc
  | .handleRead => if connected then .reading else .idle
  | .handleWrite => if connected then .lockingOut else .idle
  | .close =>
    match side with
    -- the client sets `status_` in any case
    | .client => if connected then .removing else .marking
    | .server => if connected then .lockingConns else .idle

/-- What each step does. -/
def effect (s : Connection κ) : ConnOp κ → Connection κ
  | .test t f => s.goto t (entered side s.connected f)
  | .read t more => s.io.goto t (if more then .reading else .idle)
  | .lockOut t => { s with outL := some t }.goto t .writing
  | .write t n =>
    -- `if (cnt <= 0) break;`
    { s.io with out := s.out - n }.goto t (if n = 0 then .written else .writing)
  | .drained t => s.goto t .written
  | .unlockOut t => { s with outL := none }.goto t .idle
  | .beginMessage t => { s with outL := some t }.goto t .producing
  | .put _ n => { s with out := s.out + n }
  | .endMessage t => { s with outL := none }.goto t .idle
  | .lockConns t => { s with sconnsL := some t }.goto t .searching
  | .search t => s.goto t (if s.listed then .erasing else .leaving)
  | .erase t => { s with listed := false }.goto t .removing
  | .remove t =>
    s.goto t (match side with | .client => .closingFd | .server => .unlocking)
  | .unlockConns t =>
    { s with sconnsL := none }.goto t (if s.pcs t = Pc.leaving then .idle else .marking)
  | .mark t =>
    -- the client has closed `sock_` already, the server is about to
    { s with connected := false }.goto t
      (match side with | .client => .idle | .server => .closingFd)
  | .closeFd t =>
    { s with closes := s.closes + 1 }.goto t
      (match side with | .client => .marking | .server => .idle)

end Code

/-- The thread is at the place where it takes this step, and the lock is free if it takes one. -/
def Guard (side : Side) (s : Connection κ) : ConnOp κ → Prop
  -- only the poll thread is called back by `PollMgr`
  | .test t f => s.pcs t = .idle ∧ (t = .poll ∨ f = .close)
  | .read t _ => s.pcs t = .reading
  | .lockOut t => s.pcs t = .lockingOut ∧ s.outL = none
  | .write t n => s.pcs t = .writing ∧ 0 < s.out ∧ n ≤ s.out
  | .drained t => s.pcs t = .writing ∧ s.out = 0
  | .unlockOut t => s.pcs t = .written
  | .beginMessage t => s.pcs t = .idle ∧ s.outL = none
  | .put t _ | .endMessage t => s.pcs t = .producing
  -- a client is in no such set
  | .lockConns t => side = .server ∧ s.pcs t = .lockingConns ∧ s.sconnsL = none
  | .search t => side = .server ∧ s.pcs t = .searching
  | .erase t => side = .server ∧ s.pcs t = .erasing
  | .unlockConns t => side = .server ∧ (s.pcs t = .leaving ∨ s.pcs t = .unlocking)
  | .remove t => s.pcs t = .removing
  | .mark t => s.pcs t = .marking
  | .closeFd t => s.pcs t = .closingFd

instance decidableGuard [DecidableEq κ] (side : Side) (s : Connection κ) :
    ∀ a, Decidable (s.Guard side a)
  | .test _ _ | .unlockConns _ => inferInstanceAs (Decidable (_ ∧ (_ ∨ _)))
  | .write _ _ | .lockConns _ => inferInstanceAs (Decidable (_ ∧ _ ∧ _))
  | .lockOut _ | .drained _ | .beginMessage _ | .search _ | .erase _ =>
    inferInstanceAs (Decidable (_ ∧ _))
  | .read _ _ | .unlockOut _ | .put _ _ | .endMessage _ | .remove _ | .mark _ | .closeFd _ =>
    inferInstanceAs (Decidable (_ = _))

/-! ## The descriptor is respected -/

/-- No input or output on `sock_` after it was closed, and it is closed once. -/
def Respected (s : Connection κ) : Prop :=
  s.strays = 0 ∧ s.closes ≤ 1

/-- When `sock_` is closed, no other thread is between a look at `status_` that has found CONNECTED and
    the end of the loop of `read_from_fd` or `write_to_fd` behind it, or its own `::close(sock_)`; and
    on a client nobody looks at `status_` between `::close(sock_)` and `status_ = CLOSED`. -/
def Careful (side : Side) (s : Connection κ) : ConnOp κ → Prop
  | .closeFd t => ∀ t', t' ≠ t → ¬ (s.pcs t').Bound
  | .test _ _ => side = .client → s.connected = true → ∀ t', s.pcs t' ≠ .marking
  | _ => True

instance decidableCareful [DecidableEq κ] [Fintype κ] (side : Side) (s : Connection κ) :
    ∀ a, Decidable (s.Careful side a)
  | .closeFd _ => inferInstanceAs (Decidable (∀ _, _ → ¬ _))
  | .test _ _ => inferInstanceAs (Decidable (_ → _ → ∀ _, _))
  | .read _ _ | .lockOut _ | .write _ _ | .drained _ | .unlockOut _ | .beginMessage _ | .put _ _
  | .endMessage _ | .lockConns _ | .search _ | .erase _ | .remove _ | .unlockConns _ | .mark _ =>
    isTrue trivial

/-- What `sconns_l_` and `sconns_` are for: one thread closes the connection. -/
structure Owned (s : Connection κ) : Prop where
  lock : ∀ t, (s.pcs t).Inside → s.sconnsL = some t
  here : ∀ t, s.pcs t = .erasing → s.listed = true
  gone : ∀ t, (s.pcs t).Owner → s.listed = false ∧ s.closes = 0
  unique : ∀ t t', (s.pcs t).Owner → (s.pcs t').Owner → t = t'
  closed : s.closes ≠ 0 → s.listed = false
  /-- the server sets `status_` before it closes -/
  marked : ∀ t, s.pcs t = .closingFd → s.connected = false

/-- After `::close(sock_)` no thread is on its way to a system call on `sock_`, and none can find
    `status_ == CONNECTED` without noticing a client at `status_ = CLOSED`. -/
structure Inv (side : Side) (s : Connection κ) : Prop where
  strays : s.strays = 0
  once : s.closes ≤ 1
  after : s.closes ≠ 0 → ∀ t, ¬ (s.pcs t).Bound
  window : s.closes ≠ 0 → s.connected = true → side = .client ∧ ∃ t, s.pcs t = .marking
  owned : side = .server → s.Owned

theorem Inv.init (side : Side) (out : Nat) : Inv side (init out : Connection κ) := by
  constructor
  · rfl
  · simp [Connection.init]
  · simp [Connection.init]
  · simp [Connection.init]
  · intro _
    constructor <;> simp [Connection.init, Pc.Inside, Pc.Owner]

section Steps

variable [DecidableEq κ] {side : Side} {s : Connection κ} {t : Thread κ} {pc : Pc}

variable (s t pc) in
/-- Where the threads are after one of them has moved. -/
theorem goto_pcs (t' : Thread κ) :
    (t' = t ∧ (s.goto t pc).pcs t' = pc) ∨ (t' ≠ t ∧ (s.goto t pc).pcs t' = s.pcs t') := by
  by_cases ht : t' = t
  · subst ht
    exact .inl ⟨rfl, Function.update_self ..⟩
  · exact .inr ⟨ht, Function.update_of_ne ht ..⟩

/-- A thread that moves is where it was, as far as `P` can tell. -/
theorem range_goto {P : Pc → Prop} (hpc : P pc → P (s.pcs t)) {t' : Thread κ}
    (h : P ((s.goto t pc).pcs t')) : P (s.pcs t') := by
  obtain ⟨rfl, heq⟩ | ⟨-, heq⟩ := s.goto_pcs t pc t'
  · rw [heq] at h
    exact hpc h
  · rwa [heq] at h

/-! ### Who may close a connection of the server -/

/-- A thread moves, and does not take the lock or the connection. -/
theorem Owned.goto (h : s.Owned) (hin : pc.Inside → (s.pcs t).Inside)
    (here : pc = .erasing → s.listed = true) (hown : pc.Owner → (s.pcs t).Owner)
    (hmark : pc = .closingFd → s.connected = false) : (s.goto t pc).Owned := by
  constructor
  · intro t' hin'
    exact h.lock t' (range_goto hin hin')
  · intro t' herase
    obtain ⟨rfl, heq⟩ | ⟨-, heq⟩ := s.goto_pcs t pc t'
    · exact here (heq ▸ herase)
    · exact h.here t' (heq ▸ herase)
  · intro t' hown'
    exact h.gone t' (range_goto hown hown')
  · intro t₁ t₂ h₁ h₂
    exact h.unique t₁ t₂ (range_goto hown h₁) (range_goto hown h₂)
  · exact h.closed
  · intro t' hclosing
    obtain ⟨rfl, heq⟩ | ⟨-, heq⟩ := s.goto_pcs t pc t'
    · exact hmark (heq ▸ hclosing)
    · exact h.marked t' (heq ▸ hclosing)

/-- `sconns_l_.lock();` -/
theorem Owned.lockConns (h : s.Owned) (hfree : s.sconnsL = none) :
    ({ s with sconnsL := some t }.goto t .searching).Owned := by
  -- nobody was inside, since the lock was free
  have hout : ∀ t', ¬ (s.pcs t').Inside := by
    intro t' hin
    simp [h.lock t' hin] at hfree
  constructor
  · intro t' hin
    obtain ⟨rfl, -⟩ | ⟨-, heq⟩ := goto_pcs { s with sconnsL := some t } t .searching t'
    · rfl
    · exact absurd (heq ▸ hin) (hout t')
  · intro t' herase
    apply h.here t'
    exact range_goto (P := (· = .erasing)) (by simp) herase
  · intro t' hown
    exact h.gone t' (range_goto (by simp [Pc.Owner]) hown)
  · intro t₁ t₂ h₁ h₂
    exact h.unique t₁ t₂ (range_goto (by simp [Pc.Owner]) h₁) (range_goto (by simp [Pc.Owner]) h₂)
  · exact h.closed
  · intro t' hclosing
    apply h.marked t'
    exact range_goto (P := (· = .closingFd)) (by simp) hclosing

omit [DecidableEq κ] in
/-- Two threads are not inside at once. -/
theorem Owned.eq_of_inside (h : s.Owned) {t' : Thread κ} (hin : (s.pcs t).Inside)
    (hin' : (s.pcs t').Inside) : t' = t := by
  have hlock : some t' = some t := (h.lock t' hin').symm.trans (h.lock t hin)
  exact Option.some.inj hlock

/-- `sconns_.erase(it);` -/
theorem Owned.erase (h : s.Owned) (hpc : s.pcs t = .erasing) :
    ({ s with listed := false }.goto t .removing).Owned := by
  have hlisted : s.listed = true := h.here t hpc
  -- so nobody had taken the connection before
  have hfirst : ∀ t', ¬ (s.pcs t').Owner := by
    intro t' hown
    simp [(h.gone t' hown).1] at hlisted
  have hopen : s.closes = 0 := by
    by_contra hne
    simp [h.closed hne] at hlisted
  constructor
  · -- the thread that erases keeps the lock
    intro t' hin
    exact h.lock t' (range_goto (by simp [hpc, Pc.Inside]) hin)
  · intro t' herase
    obtain ⟨rfl, heq⟩ | ⟨hne, heq⟩ := goto_pcs { s with listed := false } t .removing t'
    · simp [heq] at herase
    · -- the other thread would be inside as well
      have herase' : s.pcs t' = .erasing := heq ▸ herase
      exact absurd (h.eq_of_inside (by simp [hpc, Pc.Inside]) (by simp [herase', Pc.Inside])) hne
  · -- whoever is behind the erase finds the connection gone
    intro t' _
    exact ⟨rfl, hopen⟩
  · -- this thread is the only owner
    intro t₁ t₂ h₁ h₂
    obtain ⟨rfl, -⟩ | ⟨-, heq₁⟩ := goto_pcs { s with listed := false } t .removing t₁
    · obtain ⟨rfl, -⟩ | ⟨-, heq₂⟩ := goto_pcs { s with listed := false } t₁ .removing t₂
      · rfl
      · exact absurd (heq₂ ▸ h₂) (hfirst t₂)
    · exact absurd (heq₁ ▸ h₁) (hfirst t₁)
  · -- nothing is closed yet
    intro _
    rfl
  · -- no other thread closes the descriptor
    intro t' hclosing
    apply h.marked t'
    exact range_goto (P := (· = .closingFd)) (by simp) hclosing

/-- `sconns_l_.unlock();` -/
theorem Owned.unlockConns (h : s.Owned) (hin : (s.pcs t).Inside) (hout : ¬ pc.Inside)
    (hown : pc.Owner → (s.pcs t).Owner) (hclosing : pc ≠ .closingFd) :
    ({ s with sconnsL := none }.goto t pc).Owned := by
  have hmoved : (s.goto t pc).Owned := by
    apply h.goto
    · intro hin'
      exact absurd hin' hout
    · rintro rfl
      exact absurd trivial hout
    · exact hown
    · intro heq
      exact absurd heq hclosing
  refine { hmoved with lock := fun t' hin' => ?_ }
  -- nobody is inside any more
  obtain ⟨rfl, heq⟩ | ⟨hne, heq⟩ := goto_pcs { s with sconnsL := none } t pc t'
  · exact absurd (heq ▸ hin') hout
  · exact absurd (h.eq_of_inside hin (heq ▸ hin')) hne

/-- `status_ = CLOSED;` -/
theorem Owned.mark (h : s.Owned) (hpc : s.pcs t = .marking) :
    ({ s with connected := false }.goto t .closingFd).Owned := by
  have hmarked : Owned { s with connected := false } := { h with marked := fun _ _ => rfl }
  apply hmarked.goto
  · simp [Pc.Inside]
  · simp
  · simp [hpc, Pc.Owner]
  · simp

/-- `::close(sock_);` -/
theorem Owned.closeFd (h : s.Owned) (hpc : s.pcs t = .closingFd) :
    ({ s with closes := s.closes + 1 }.goto t .idle).Owned := by
  have hown : (s.pcs t).Owner := by simp [hpc, Pc.Owner]
  -- the thread was the only one, and it is done
  have hnone : ∀ t', ¬ ((s.goto t .idle).pcs t').Owner := by
    intro t' hown'
    obtain ⟨rfl, heq⟩ | ⟨hne, heq⟩ := s.goto_pcs t .idle t'
    · simp [heq, Pc.Owner] at hown'
    · exact hne (h.unique t' t (heq ▸ hown') hown)
  have hmoved : (s.goto t .idle).Owned := by
    apply h.goto <;> simp [Pc.Inside, Pc.Owner]
  refine { hmoved with gone := fun t' hown' => ?_, closed := fun _ => (h.gone t hown).1 }
  exact absurd hown' (hnone t')

/-! ### Nobody uses `sock_` after it was closed -/

/-- A thread moves that is not at `status_ = CLOSED`, and may take or leave `sconns_l_`. -/
theorem Inv.goto (h : Inv side s) (sconnsL : Option (Thread κ))
    (hbound : pc.Bound → (s.pcs t).Bound ∨ s.closes = 0) (hmark : s.pcs t ≠ .marking)
    (howned : side = .server → ({ s with sconnsL := sconnsL }.goto t pc).Owned) :
    Inv side ({ s with sconnsL := sconnsL }.goto t pc) := by
  constructor
  · exact h.strays
  · exact h.once
  · intro hclosed t' hb
    apply h.after hclosed t'
    refine range_goto (fun hpc => ?_) hb
    exact (hbound hpc).resolve_right hclosed
  · intro hclosed hconn
    obtain ⟨hside, t', ht'⟩ := h.window hclosed hconn
    refine ⟨hside, t', ?_⟩
    obtain ⟨rfl, -⟩ | ⟨-, heq⟩ := s.goto_pcs t pc t'
    · exact absurd ht' hmark
    · exact heq.trans ht'
  · exact howned

omit [DecidableEq κ] in
/-- `out_` and its lock do not matter. -/
theorem Inv.output (h : Inv side s) (outL : Option (Thread κ)) (out : Nat) :
    Inv side { s with outL := outL, out := out } := by
  refine { h with owned := fun hserver => ?_ }
  exact { h.owned hserver with }

omit [DecidableEq κ] in
/-- As long as a thread is on its way to a system call, `sock_` is open. -/
theorem Inv.open_of_bound (h : Inv side s) (hb : (s.pcs t).Bound) : s.closes = 0 := by
  by_contra hclosed
  exact h.after hclosed t hb

omit [DecidableEq κ] in
/-- `::read` and `::write` find `sock_` open. -/
theorem Inv.io_eq (h : Inv side s) (hb : (s.pcs t).Bound) : s.io = s := by
  unfold io
  rw [if_pos (h.open_of_bound hb)]
  rfl

/-- A thread moves to a place outside of what `sconns_l_` and `sconns_` protect. -/
theorem Inv.move (h : Inv side s) (hin : ¬ pc.Inside) (hown : ¬ pc.Owner)
    (hbound : pc.Bound → (s.pcs t).Bound ∨ s.closes = 0) (hmark : s.pcs t ≠ .marking) :
    Inv side (s.goto t pc) := by
  refine h.goto s.sconnsL hbound hmark (fun hserver => ?_)
  apply (h.owned hserver).goto
  · intro hin'
    exact absurd hin' hin
  · rintro rfl
    exact absurd trivial hin
  · intro hown'
    exact absurd hown' hown
  · rintro rfl
    exact absurd trivial hown

omit [DecidableEq κ] in
/-- The test of `status_` finds `CONNECTED` only before `::close(sock_)`. -/
theorem Inv.open_of_test (h : Inv side s)
    (hcareful : side = .client → s.connected = true → ∀ t', s.pcs t' ≠ .marking)
    (hconn : s.connected = true) : s.closes = 0 := by
  by_contra hclosed
  obtain ⟨hside, t', ht'⟩ := h.window hclosed hconn
  exact hcareful hside hconn t' ht'

/-- The test of `status_` at the beginning of a function. -/
theorem Inv.test {f : Entry} (h : Inv side s) (hpc : s.pcs t = .idle)
    (hcareful : side = .client → s.connected = true → ∀ t', s.pcs t' ≠ .marking) :
    Inv side (s.goto t (entered side s.connected f)) := by
  have hmark : s.pcs t ≠ .marking := by simp [hpc]
  cases hconn : s.connected with
  | false =>
    cases f with
    | handleRead | handleWrite =>
      apply h.move _ _ _ hmark <;> simp [entered, Pc.Inside, Pc.Owner, Pc.Bound]
    | close =>
      cases side with
      | client => apply h.goto s.sconnsL _ hmark <;> simp [entered, Pc.Bound]
      | server => apply h.move _ _ _ hmark <;> simp [entered, Pc.Inside, Pc.Owner, Pc.Bound]
  | true =>
    have hopen : s.closes = 0 := h.open_of_test hcareful hconn
    cases f with
    | handleRead | handleWrite =>
      apply h.move _ _ _ hmark <;> simp [entered, Pc.Inside, Pc.Owner, hopen]
    | close =>
      cases side with
      | client => apply h.goto s.sconnsL _ hmark <;> simp [entered, hopen]
      | server => apply h.move _ _ _ hmark <;> simp [entered, Pc.Inside, Pc.Owner, hopen]

/-- `sconns_.erase(it);` -/
theorem Inv.erase (h : Inv .server s) (hpc : s.pcs t = .erasing) :
    Inv .server ({ s with listed := false }.goto t .removing) := by
  have howned := (h.owned rfl).erase hpc
  -- the connection was in `sconns_`, so it has not been closed
  have hopen : s.closes = 0 := (howned.gone t (by simp [Connection.goto, Pc.Owner])).2
  constructor
  · exact h.strays
  · exact h.once
  · intro hclosed
    exact absurd hopen hclosed
  · intro hclosed
    exact absurd hopen hclosed
  · intro _
    exact howned

/-- `status_ = CLOSED;` -/
theorem Inv.mark (h : Inv side s) (hpc : s.pcs t = .marking) :
    Inv side (s.effect side (.mark t)) := by
  constructor
  · exact h.strays
  · exact h.once
  · intro hclosed t' hb
    refine h.after hclosed t' (range_goto (fun hpc' => ?_) hb)
    cases side with
    | client => simp [Pc.Bound] at hpc'
    -- the server is about to close
    | server => exact absurd ((h.owned rfl).gone t (by simp [hpc, Pc.Owner])).2 hclosed
  · intro _ hconn
    cases hconn
  · rintro rfl
    exact (h.owned rfl).mark hpc

/-- `::close(sock_);` -/
theorem Inv.closeFd (h : Inv side s) (hpc : s.pcs t = .closingFd)
    (hcareful : ∀ t', t' ≠ t → ¬ (s.pcs t').Bound) :
    Inv side (s.effect side (.closeFd t)) := by
  have hopen : s.closes = 0 := h.open_of_bound (t := t) (by simp [hpc, Pc.Bound])
  constructor
  · exact h.strays
  · simp [effect, Connection.goto, hopen]
  · intro _ t' hb
    by_cases ht : t' = t
    · subst ht
      cases side <;> simp [effect, Connection.goto, Pc.Bound] at hb
    · apply hcareful t' ht
      simpa [effect, Connection.goto, Function.update_of_ne ht] using hb
  · intro _ hconn
    cases side with
    | client => exact ⟨rfl, t, by simp [effect, Connection.goto]⟩
    | server =>
      -- the server has set `status_`
      have hmarked : s.connected = false := (h.owned rfl).marked t hpc
      have hconn' : s.connected = true := hconn
      simp [hmarked] at hconn'
  · rintro rfl
    exact (h.owned rfl).closeFd hpc

/-- One step of one thread. -/
theorem Inv.effect {a : ConnOp κ} (h : Inv side s) (hguard : s.Guard side a)
    (hcareful : s.Careful side a) : Inv side (s.effect side a) := by
  cases a with
  | test t f => exact h.test hguard.1 hcareful
  | read t more =>
    -- a thread that passed the test finds the descriptor open
    have hb : (s.pcs t).Bound := by simp [show s.pcs t = .reading from hguard, Pc.Bound]
    simp only [Connection.effect, h.io_eq hb]
    apply h.move
    · cases more <;> simp [Pc.Inside]
    · cases more <;> simp [Pc.Owner]
    · intro _
      exact .inl hb
    · simp [show s.pcs t = .reading from hguard]
  | lockOut t =>
    -- `out_l_` goes to this thread
    apply (h.output (some t) s.out).move <;> simp [Pc.Inside, Pc.Owner, Pc.Bound, hguard.1]
  | write t n =>
    -- the descriptor is open for `::write` too
    have hb : (s.pcs t).Bound := by simp [hguard.1, Pc.Bound]
    simp only [Connection.effect, h.io_eq hb]
    apply (h.output s.outL (s.out - n)).move
    · split <;> simp [Pc.Inside]
    · split <;> simp [Pc.Owner]
    · intro _
      exact .inl hb
    · simp [hguard.1]
  | drained t => apply h.move <;> simp [Pc.Inside, Pc.Owner, Pc.Bound, hguard.1]
  | unlockOut t =>
    -- the lock is given back
    have hpc : s.pcs t = .written := hguard
    apply (h.output none s.out).move <;> simp [Pc.Inside, Pc.Owner, Pc.Bound, hpc]
  | beginMessage t =>
    apply (h.output (some t) s.out).move <;> simp [Pc.Inside, Pc.Owner, Pc.Bound, hguard.1]
  | put t n => exact h.output s.outL (s.out + n)
  | endMessage t =>
    have hpc : s.pcs t = .producing := hguard
    apply (h.output none s.out).move <;> simp [Pc.Inside, Pc.Owner, Pc.Bound, hpc]
  -- the critical section of the server's `close` keeps `Owned`
  | lockConns t =>
    obtain ⟨rfl, hpc, hfree⟩ := hguard
    apply h.goto (some t)
    · simp [Pc.Bound]
    · simp [hpc]
    · intro hserver
      exact (h.owned hserver).lockConns hfree
  | search t =>
    obtain ⟨rfl, hpc⟩ := hguard
    apply h.goto s.sconnsL
    · -- found or not
      split <;> simp [Pc.Bound]
    · simp [hpc]
    · intro hserver
      apply (h.owned hserver).goto
      · simp [hpc, Pc.Inside]
      · split <;> simp_all
      · split <;> simp [Pc.Owner]
      · split <;> simp
  | erase t =>
    obtain ⟨rfl, hpc⟩ := hguard
    exact h.erase hpc
  | remove t =>
    have hpc : s.pcs t = .removing := hguard
    apply h.goto s.sconnsL
    · simp [hpc, Pc.Bound]
    · simp [hpc]
    · rintro rfl
      apply (h.owned rfl).goto <;> simp [hpc, Pc.Inside, Pc.Owner]
  | unlockConns t =>
    obtain ⟨rfl, hpc⟩ := hguard
    apply h.goto none
    · -- it still holds no descriptor
      split <;> simp [Pc.Bound]
    · obtain hpc | hpc := hpc <;> simp [hpc]
    · intro hserver
      -- it leaves after removing the connection, or without having found it
      obtain hpc | hpc := hpc
      · apply (h.owned hserver).unlockConns <;> simp [hpc, Pc.Inside, Pc.Owner]
      · apply (h.owned hserver).unlockConns <;> simp [hpc, Pc.Inside, Pc.Owner]
  | mark t => exact h.mark hguard
  | closeFd t => exact h.closeFd hguard hcareful

end Steps

variable [DecidableEq κ]

/-- **No use of a closed descriptor**: whoever closes the connection, and however the threads are
    interleaved, `sock_` is closed once and not read or written after that, as long as nobody
    closes it while another thread relies on what it saw in `status_`, and no thread looks at the
    `status_` of a client that has closed it and not said so yet. -/
theorem descriptor_respected_of_careful (side : Side) {out : Nat} {s : Connection κ}
    {as : List (ConnOp κ)}
    (hrun : Steps (Guarded (fun s a => s.Guard side a ∧ s.Careful side a) (effect side))
      (init out) as s) :
    s.Respected := by
  have hinv : Inv side s := by
    apply hrun.guarded_invariant _ (Inv.init side out)
    intro s a h hguard
    exact h.effect hguard.1 hguard.2
  exact ⟨hinv.strays, hinv.once⟩

/-- The steps of `close` on an open connection. -/
def closing (side : Side) (t : Thread κ) : List (ConnOp κ) :=
  match side with
  | .client => [.test t .close, .remove t, .closeFd t, .mark t]
  | .server =>
    [.test t .close, .lockConns t, .search t, .erase t, .remove t, .unlockConns t, .mark t,
      .closeFd t]

/-- The poll thread reads, another thread closes, and then the poll thread wants to read again. -/
def readThenClose (side : Side) : List (ConnOp Unit) :=
  [.test .poll .handleRead, .read .poll true, .read .poll false] ++ closing side (.user ()) ++
    [.test .poll .handleRead]

theorem descriptor_respected_readThenClose :
    ((readThenClose .client).foldl (effect .client) (init 0)).Respected ∧
    ((readThenClose .client).foldl (effect .client) (init 0)).closes = 1 ∧
    ((readThenClose .server).foldl (effect .server) (init 0)).Respected ∧
    ((readThenClose .server).foldl (effect .server) (init 0)).closes = 1 :=
  ⟨descriptor_respected_of_careful .client (Steps.of_passes (by decide)), by decide,
    descriptor_respected_of_careful .server (Steps.of_passes (by decide)), by decide⟩

/-- Another thread closes between the poll thread's look at `status_` and its `::read`. -/
def closeThenRead (side : Side) : List (ConnOp Unit) :=
  [.test .poll .handleRead] ++ closing side (.user ()) ++ [.read .poll false]

/-- `close` and `handle_error` of a client have both found it connected. -/
def closeTwice : List (ConnOp Unit) :=
  [.test (.user ()) .close, .test .poll .close, .remove (.user ()), .closeFd (.user ()),
    .remove .poll, .closeFd .poll]

/-- On both sides the poll thread may read from a closed descriptor, and a client may close it
    twice. -/
theorem descriptor_not_respected :
    (¬ ∀ (as : List (ConnOp Unit)) (s : Connection Unit),
      Steps (Guarded (Guard .client) (effect .client)) (init 0) as s → s.strays = 0) ∧
    (¬ ∀ (as : List (ConnOp Unit)) (s : Connection Unit),
      Steps (Guarded (Guard .server) (effect .server)) (init 0) as s → s.strays = 0) ∧
    (¬ ∀ (as : List (ConnOp Unit)) (s : Connection Unit),
      Steps (Guarded (Guard .client) (effect .client)) (init 0) as s → s.closes ≤ 1) := by
  refine ⟨?_, ?_, ?_⟩
  · intro h
    have hread := h (closeThenRead .client) _ (Steps.of_passes (by decide))
    revert hread
    decide
  · intro h
    have hread := h (closeThenRead .server) _ (Steps.of_passes (by decide))
    revert hread
    decide
  · intro h
    have hclose := h closeTwice _ (Steps.of_passes (by decide))
    revert hclose
    decide

end Connection

end SimpleRpc.Rpc
