import Mathlib.Algebra.GroupWithZero.Nat
import Mathlib.Data.Fintype.Sum
import Mathlib.Tactic.DeriveFintype
import SimpleRpc.Lib.WorkQueues

/-!
# The Thread Pool (`base/threading.cc`, `base/threading.h`)

Every worker of the pool has a queue of its own. `run_async` pushes a job on one of them; a worker
takes from its own queue, steals from the others when it finds nothing, and stops when it takes the
null pointer that the destructor pushes. The destructor joins the workers and runs what is left.

## Layers

- **Code**: `ThreadPool.runAsync`, `ThreadPool.runThread` and `ThreadPool.destroy`, one access to
  shared data a step
- **System**: `ThreadPool.Next`, any interleaving of any number of calls, the workers and the
  destructor
- **Abstract**: `ThreadPool.board`, the queues and the hands of `SimpleRpc.Lib.WorkQueues`; a step
  of the pool is a step of these, or none
- **Invariant**: `ThreadPool.Inv`

## Main results

- `every_job_once`: what was accepted before the final drain is executed once

## Model

- a call of `run_async` is named by the job that it makes, `none` is the null pointer
- an operation on a `Queue` holds its mutex, so it is one step; `pop` waits until there is something
- the naps of a worker and what it adds to or takes from `sleep_req` are steps without an effect;
  the order in which it steals is any list
- a job runs in one step; what it does to the pool is done by calls of its own
- `round_robin_` does not reach 2^63; once the destructor has returned there is no pool to call
-/

namespace SimpleRpc.Base

open SimpleRpc.Lib

/-- Where a call of `run_async` is. -/
inductive RunAsync (n : Nat) where
  | called
  /-- `EPERM` -/
  | refused
  /-- it has found `should_stop_` false -/
  | passed
  | chosen (j : Fin n)
  | pushed
  /-- `0` -/
  | returned
  deriving DecidableEq

/-- Where a worker is in the loop of `run_thread`. -/
inductive RunThread (n : Nat) (ι : Type) where
  /-- `try_pop` -/
  | stage0
  /-- `nanosleep` -/
  | stage1
  /-- `try_pop` -/
  | stage2
  /-- the rest of `steal_order` -/
  | stage3 (order : List (Fin n))
  /-- `pop` -/
  | stage4
  /-- `stage == 0`, behind the `switch` -/
  | popped (job : Option ι)
  | stopped
  deriving DecidableEq

/-- Where the destructor is. -/
inductive DestroyPool (ι : Type) where
  | alive
  | pushing (i : Nat)
  | joining (i : Nat)
  | draining (i : Nat)
  /-- `try_pop` has returned `job` -/
  | popped (i : Nat) (job : Option ι)
  | returned
  deriving DecidableEq

/-- Who takes a job from a queue. -/
inductive Taker (n : Nat) where
  | worker (i : Fin n)
  | destructor
  deriving DecidableEq, Fintype

/-- `class ThreadPool` with `n_ = n` -/
structure ThreadPool (n : Nat) (ι : Type) where
  q : Fin n → List (Option ι)
  roundRobin : Nat
  shouldStop : Bool
  call : ι → RunAsync n
  thread : Fin n → RunThread n ι
  dtor : DestroyPool ι
  /-- ghost: what was pushed on a queue -/
  entered : Fin n → List (Option ι)
  /-- ghost: what was popped from it, and by whom -/
  taken : Fin n → List (Taker n × Option ι)
  /-- ghost: pushed when the final drain had begun -/
  late : ι → Bool
  /-- ghost: the pointers that were called -/
  executed : List (Option ι)

/-- The final drain has begun. -/
def DestroyPool.Draining {ι : Type} : DestroyPool ι → Prop
  | .draining _ | .popped _ _ | .returned => True
  | _ => False

instance {ι : Type} : DecidablePred (DestroyPool.Draining (ι := ι)) := fun d => by
  cases d <;> unfold DestroyPool.Draining <;> infer_instance

namespace ThreadPool

variable {n : Nat} {ι : Type} [DecidableEq ι]

omit [DecidableEq ι] in
/-- The workers are created, nobody has called. -/
def init : ThreadPool n ι where
  q _ := []
  roundRobin := 0
  shouldStop := false
  call _ := .called
  thread _ := .stage0
  dtor := .alive
  entered _ := []
  taken _ := []
  late _ := false
  executed := []

/-! ## The code -/

omit [DecidableEq ι] in
/-- `q_[j].push(x)` -/
def push (s : ThreadPool n ι) (j : Fin n) (x : Option ι) : ThreadPool n ι :=
  { s with q := Function.update s.q j (s.q j ++ [x])
           entered := Function.update s.entered j (s.entered j ++ [x]) }

omit [DecidableEq ι] in
/-- `x = q_.front(); q_.pop_front();` on the queue `j`, which becomes `rest` -/
def pop (s : ThreadPool n ι) (who : Taker n) (j : Fin n) (x : Option ι) (rest : List (Option ι)) :
    ThreadPool n ι :=
  { s with q := Function.update s.q j rest
           taken := Function.update s.taken j (s.taken j ++ [(who, x)]) }

omit [DecidableEq ι] in
/-- `(*job)()`, unless it is null -/
def execute (s : ThreadPool n ι) (job : Option ι) : ThreadPool n ι :=
  if job.isSome then { s with executed := s.executed ++ [job] } else s

/-- A call goes on. -/
def callGoto (s : ThreadPool n ι) (c : ι) (pc : RunAsync n) : ThreadPool n ι :=
  { s with call := Function.update s.call c pc }

omit [DecidableEq ι] in
/-- A worker goes on. -/
def goto (s : ThreadPool n ι) (i : Fin n) (pc : RunThread n ι) : ThreadPool n ι :=
  { s with thread := Function.update s.thread i pc }

/-- `run_async`; `channel` is the argument `queuing_channel` of every call. -/
def runAsync [NeZero n] (channel : ι → Int) (s : ThreadPool n ι) (c : ι) : ThreadPool n ι :=
  match s.call c with
  | .called => if s.shouldStop then s.callGoto c .refused else s.callGoto c .passed
  | .passed =>
    if 0 ≤ channel c then s.callGoto c (.chosen (Fin.ofNat n (channel c).toNat))
    else { s with roundRobin := s.roundRobin + 1 }.callGoto c (.chosen (Fin.ofNat n s.roundRobin))
  | .chosen j =>
    { (s.push j (some c)).callGoto c .pushed with
      late := Function.update s.late c (decide s.dtor.Draining) }
  | .pushed => s.callGoto c .returned
  | .refused | .returned => s

omit [DecidableEq ι] in
/-- `try_pop` of the own queue, which leads to `next` when the queue is empty -/
def tryPop (s : ThreadPool n ι) (i : Fin n) (next : RunThread n ι) : ThreadPool n ι :=
  match s.q i with
  | x :: rest => (s.pop (.worker i) i x rest).goto i (.popped x)
  | [] => s.goto i next

omit [DecidableEq ι] in
/-- `run_thread` of the worker `i`, whose `steal_order` is `order i`. -/
def runThread (order : Fin n → List (Fin n)) (s : ThreadPool n ι) (i : Fin n) : ThreadPool n ι :=
  match s.thread i with
  | .stage0 => s.tryPop i .stage1
  | .stage1 => s.goto i .stage2
  | .stage2 => s.tryPop i (.stage3 (order i))
  | .stage3 [] => s.goto i .stage4
  | .stage3 (j :: rest) =>
    if j = i then s.goto i (.stage3 rest)
    else match s.q j with
      -- `try_pop_but_ignore` leaves a null pointer where it is
      | some c :: tail => (s.pop (.worker i) j (some c) tail).goto i (.popped (some c))
      | _ => s.goto i (.stage3 rest)
  | .stage4 => s.tryPop i .stage4
  | .popped job => (s.execute job).goto i (if job.isSome then .stage0 else .stopped)
  | .stopped => s

omit [DecidableEq ι] in
/-- `~ThreadPool` -/
def destroy (s : ThreadPool n ι) : ThreadPool n ι :=
  match s.dtor with
  | .alive => { s with shouldStop := true, dtor := .pushing 0 }
  | .pushing i =>
    if h : i < n then { s.push ⟨i, h⟩ none with dtor := .pushing (i + 1) }
    else { s with dtor := .joining 0 }
  | .joining i => if i < n then { s with dtor := .joining (i + 1) } else { s with dtor := .draining 0 }
  | .draining i =>
    if h : i < n then
      match s.q ⟨i, h⟩ with
      | x :: rest => { s.pop .destructor ⟨i, h⟩ x rest with dtor := .popped i x }
      | [] => { s with dtor := .draining (i + 1) }
    else { s with dtor := .returned }
  | .popped i job => { s.execute job with dtor := .draining i }
  | .returned => s

/-- A step of a call, of a worker or of the destructor. -/
inductive Op (n : Nat) (ι : Type) where
  | call (c : ι)
  | worker (i : Fin n)
  | destructor

/-- One step. -/
def effect [NeZero n] (channel : ι → Int) (order : Fin n → List (Fin n)) (s : ThreadPool n ι) :
    Op n ι → ThreadPool n ι
  | .call c => s.runAsync channel c
  | .worker i => s.runThread order i
  | .destructor => s.destroy

omit [DecidableEq ι] in
/-- Who has returned takes no step; `pop` waits for the queue, the destructor for the worker that it
    joins. -/
def Guard (s : ThreadPool n ι) : Op n ι → Prop
  | .call c => s.dtor ≠ .returned ∧ s.call c ≠ .refused ∧ s.call c ≠ .returned
  | .worker i => s.thread i ≠ .stopped ∧ (s.thread i = .stage4 → s.q i ≠ [])
  | .destructor => s.dtor ≠ .returned ∧ ∀ i : Fin n, s.dtor = .joining i → s.thread i = .stopped

instance (s : ThreadPool n ι) (op : Op n ι) : Decidable (s.Guard op) := by
  cases op <;> unfold Guard <;> infer_instance

/-- A step of the system. -/
abbrev Next [NeZero n] (channel : ι → Int) (order : Fin n → List (Fin n)) :
    ThreadPool n ι → Op n ι → ThreadPool n ι → Prop :=
  Guarded Guard (effect channel order)

end ThreadPool

/-! ## The jobs -/

/-- What a worker has in its hand. -/
def RunThread.hand {n : Nat} {ι : Type} : RunThread n ι → Option (Option ι)
  | .popped job => some job
  | _ => none

/-- What the destructor has in its hand. -/
def DestroyPool.hand {ι : Type} : DestroyPool ι → Option (Option ι)
  | .popped _ job => some job
  | _ => none

namespace ThreadPool

variable {n : Nat} {ι : Type}

/-- What everybody has in his hand. -/
def hand (s : ThreadPool n ι) : Taker n → Option (Option ι)
  | .worker i => (s.thread i).hand
  | .destructor => s.dtor.hand

/-- The pool as far as the jobs are concerned. -/
def board (s : ThreadPool n ι) : WorkQueues (Fin n) (Taker n) (Option ι) :=
  ⟨s.q, s.hand, s.executed, s.entered, s.taken⟩

theorem hand_goto (s : ThreadPool n ι) (i : Fin n) (pc : RunThread n ι) :
    (s.goto i pc).hand = Function.update s.hand (.worker i) pc.hand := by
  funext who
  cases who with
  | worker k =>
    by_cases hk : k = i
    · subst hk
      simp [hand, goto]
    · have hne : Taker.worker k ≠ Taker.worker i := fun h => hk (Taker.worker.inj h)
      simp [hand, goto, Function.update_of_ne hk, Function.update_of_ne hne]
  | destructor => rfl

theorem hand_dtor (s : ThreadPool n ι) (d : DestroyPool ι) :
    hand { s with dtor := d } = Function.update s.hand .destructor d.hand := by
  funext who
  cases who with
  | worker k => rfl
  | destructor => simp [hand]

/-- A worker that keeps its hand as it was. -/
theorem board_goto (s : ThreadPool n ι) {i : Fin n} {pc : RunThread n ι}
    (hpc : pc.hand = (s.thread i).hand) : (s.goto i pc).board = s.board := by
  have hhand : (s.goto i pc).hand = s.hand := by
    rw [hand_goto, hpc]
    exact Function.update_eq_self (Taker.worker i) s.hand
  simp only [board, hhand]
  rfl

/-- The destructor keeps its hand as it was. -/
theorem board_dtor (s : ThreadPool n ι) {d : DestroyPool ι} (hd : d.hand = s.dtor.hand) :
    board { s with dtor := d } = s.board := by
  have hhand : hand { s with dtor := d } = s.hand := by
    rw [hand_dtor, hd]
    exact Function.update_eq_self Taker.destructor s.hand
  simp only [board, hhand]

/-- What a call does to the jobs. -/
def callMove (s : ThreadPool n ι) (c : ι) : Option (WorkOp (Fin n) (Taker n) (Option ι)) :=
  match s.call c with
  | .chosen j => some (.put j (some c))
  | _ => none

/-- `try_pop` and `pop` take what is in front. -/
def frontMove (s : ThreadPool n ι) (who : Taker n) (j : Fin n) :
    Option (WorkOp (Fin n) (Taker n) (Option ι)) :=
  (s.q j).head?.map fun x => .take who j x

/-- What becomes of a popped pointer: it is called, unless it is null. -/
def handMove (who : Taker n) : Option ι → WorkOp (Fin n) (Taker n) (Option ι)
  | some c => .finish who (some c)
  | none => .discard who none

/-- What a worker does to the jobs. -/
def workerMove (s : ThreadPool n ι) (i : Fin n) : Option (WorkOp (Fin n) (Taker n) (Option ι)) :=
  match s.thread i with
  | .stage0 | .stage2 | .stage4 => s.frontMove (.worker i) i
  | .stage3 (j :: _) =>
    if j = i then none
    else match s.q j with
      | some c :: _ => some (.take (.worker i) j (some c))
      | _ => none
  | .popped job => some (handMove (.worker i) job)
  | _ => none

/-- What the destructor does to the jobs. -/
def destroyMove (s : ThreadPool n ι) : Option (WorkOp (Fin n) (Taker n) (Option ι)) :=
  match s.dtor with
  | .pushing i => if h : i < n then some (.put ⟨i, h⟩ none) else none
  | .draining i => if h : i < n then s.frontMove .destructor ⟨i, h⟩ else none
  | .popped _ job => some (handMove .destructor job)
  | _ => none

/-- What a step does to the jobs. -/
def move (s : ThreadPool n ι) : Op n ι → Option (WorkOp (Fin n) (Taker n) (Option ι))
  | .call c => s.callMove c
  | .worker i => s.workerMove i
  | .destructor => s.destroyMove

/-- The step of the queues that a step of the pool is. -/
def BoardStep (b : WorkQueues (Fin n) (Taker n) (Option ι)) :
    Option (WorkOp (Fin n) (Taker n) (Option ι)) → WorkQueues (Fin n) (Taker n) (Option ι) → Prop
  | some w, b' => WorkQueues.Next b w b'
  | none, b' => b' = b

section Steps

variable [DecidableEq ι]

theorem board_runAsync [NeZero n] (channel : ι → Int) (s : ThreadPool n ι) (c : ι) :
    BoardStep s.board (s.callMove c) (s.runAsync channel c).board := by
  unfold callMove runAsync
  cases hc : s.call c with
  | called =>
    -- `run_async` tests `should_stop_`
    simp only
    split
    · rfl
    · rfl
  | passed =>
    -- and chooses a queue
    simp only
    split
    · rfl
    · rfl
  | chosen j => exact ⟨trivial, rfl⟩
  | refused => rfl
  | pushed => rfl
  | returned => rfl

omit [DecidableEq ι] in
/-- A worker takes `x` from the front of the queue `j`. -/
theorem board_pop_goto (s : ThreadPool n ι) {i j : Fin n} {x : Option ι} {rest : List (Option ι)}
    (hq : s.q j = x :: rest) (hhand : (s.thread i).hand = none) :
    WorkQueues.Next s.board (.take (.worker i) j x)
      ((s.pop (.worker i) j x rest).goto i (.popped x)).board := by
  refine ⟨⟨by simp [board, hq], hhand⟩, ?_⟩
  simp only [board, WorkQueues.effect, hand_goto, hq, List.tail_cons]
  rfl

omit [DecidableEq ι] in
/-- `try_pop` takes what is in front of the own queue. -/
theorem board_tryPop (s : ThreadPool n ι) {i : Fin n} {next : RunThread n ι}
    (hhand : (s.thread i).hand = none) (hnext : next.hand = none) :
    BoardStep s.board (s.frontMove (.worker i) i) (s.tryPop i next).board := by
  unfold tryPop frontMove
  cases hq : s.q i with
  | nil => exact board_goto s (hnext.trans hhand.symm)
  | cons x rest => exact board_pop_goto s hq hhand

omit [DecidableEq ι] in
/-- The pointer in a hand is called, or dropped. -/
theorem board_hand (s s' : ThreadPool n ι) (who : Taker n) {job : Option ι}
    (hheld : s.hand who = some job) (hhand : s'.hand = Function.update s.hand who none)
    (hs : (s'.q, s'.entered, s'.taken, s'.executed) =
      ((s.execute job).q, (s.execute job).entered, (s.execute job).taken,
        (s.execute job).executed)) :
    WorkQueues.Next s.board (handMove who job) s'.board := by
  simp only [Prod.mk.injEq] at hs
  obtain ⟨hq, hentered, htaken, hexecuted⟩ := hs
  cases job with
  | none =>
    refine ⟨hheld, ?_⟩
    simp only [board, handMove, WorkQueues.effect, hhand, hq, hentered, htaken, hexecuted]
    rfl
  | some c =>
    refine ⟨hheld, ?_⟩
    simp only [board, handMove, WorkQueues.effect, hhand, hq, hentered, htaken, hexecuted]
    rfl

omit [DecidableEq ι] in
theorem board_runThread (order : Fin n → List (Fin n)) (s : ThreadPool n ι) (i : Fin n) :
    BoardStep s.board (s.workerMove i) (s.runThread order i).board := by
  unfold workerMove runThread
  cases ht : s.thread i with
  | stage0 => exact board_tryPop s (by rw [ht]; rfl) rfl
  | stage1 => exact board_goto s (by rw [ht]; rfl)
  | stage2 => exact board_tryPop s (by rw [ht]; rfl) rfl
  | stage3 order =>
    cases order with
    | nil => exact board_goto s (by rw [ht]; rfl)
    | cons j rest =>
      by_cases hji : j = i
      · simp only [if_pos hji]
        -- a worker does not steal from itself
        exact board_goto s (by rw [ht]; rfl)
      · simp only [if_neg hji]
        -- only a job in front is stolen
        match hq : s.q j with
        | [] => exact board_goto s (by rw [ht]; rfl)
        | none :: _ => exact board_goto s (by rw [ht]; rfl)
        | some c :: tail => exact board_pop_goto s hq (by rw [ht]; rfl)
  | stage4 => exact board_tryPop s (by rw [ht]; rfl) rfl
  | popped job =>
    -- the job is executed, or the worker stops
    refine board_hand s _ (.worker i) ?_ ?_ rfl
    · show (s.thread i).hand = some job
      rw [ht]
      rfl
    · rw [hand_goto]
      cases job <;> rfl
  | stopped => rfl

omit [DecidableEq ι] in
theorem board_destroy (s : ThreadPool n ι) : BoardStep s.board s.destroyMove s.destroy.board := by
  unfold destroyMove destroy
  cases hd : s.dtor with
  | alive => exact board_dtor { s with shouldStop := true } (by rw [hd]; rfl)
  | pushing i =>
    by_cases h : i < n
    · simp only [dif_pos h]
      -- the destructor pushes one death pill after the other
      refine ⟨trivial, ?_⟩
      exact board_dtor (s.push ⟨i, h⟩ none) (by show _ = s.dtor.hand; rw [hd]; rfl)
    · simp only [dif_neg h]
      -- and goes on when every queue has one
      exact board_dtor s (by rw [hd]; rfl)
  | joining i =>
    by_cases h : i < n
    · simp only [if_pos h]
      -- it joins one thread after the other
      exact board_dtor s (by rw [hd]; rfl)
    · simp only [if_neg h]
      exact board_dtor s (by rw [hd]; rfl)
  | draining i =>
    by_cases h : i < n
    · simp only [dif_pos h, frontMove]
      -- and takes what is left in a queue
      cases hq : s.q ⟨i, h⟩ with
      | nil => exact board_dtor s (by rw [hd]; rfl)
      | cons x rest =>
        refine ⟨⟨by simp [board, hq], by show s.dtor.hand = none; rw [hd]; rfl⟩, ?_⟩
        have hhand := hand_dtor (s.pop .destructor ⟨i, h⟩ x rest) (.popped i x)
        simp only [board, WorkQueues.effect, hhand, hq, List.tail_cons]
        rfl
    · simp only [dif_neg h]
      -- until all queues are empty
      exact board_dtor s (by rw [hd]; rfl)
  | popped i job =>
    refine board_hand s _ .destructor ?_ ?_ rfl
    · show s.dtor.hand = some job
      rw [hd]
      rfl
    · rw [hand_dtor]
      cases job <;> rfl
  | returned => rfl

/-- **A step of the pool** is a step of the queues and the hands, or nothing to them. -/
theorem board_step [NeZero n] (channel : ι → Int) (order : Fin n → List (Fin n))
    (s : ThreadPool n ι) (op : Op n ι) :
    BoardStep s.board (s.move op) (s.effect channel order op).board := by
  cases op with
  | call c => exact board_runAsync channel s c
  | worker i => exact board_runThread order s i
  | destructor => exact board_destroy s

end Steps

end ThreadPool

/-! ## The invariant -/

/-- The job of the call is in the pool. -/
def RunAsync.Accepted {n : Nat} : RunAsync n → Prop
  | .pushed | .returned => True
  | _ => False

instance {n : Nat} : DecidablePred (RunAsync.Accepted (n := n)) := fun pc => by
  cases pc <;> unfold RunAsync.Accepted <;> infer_instance

/-- The worker has popped a null pointer. -/
def RunThread.Dying {n : Nat} {ι : Type} : RunThread n ι → Prop
  | .popped none | .stopped => True
  | _ => False

namespace DestroyPool

variable {ι : Type}

/-- The death pill is pushed on the queue `j`. -/
def Pushed (j : Nat) : DestroyPool ι → Prop
  | .alive => False
  | .pushing i => j < i
  | _ => True

instance (j : Nat) : DecidablePred (Pushed (ι := ι) j) := fun d => by
  cases d <;> unfold Pushed <;> infer_instance

/-- The worker `j` is joined. -/
def Joined (j : Nat) : DestroyPool ι → Prop
  | .alive | .pushing _ => False
  | .joining i => j < i
  | _ => True

/-- The final drain is through with the queue `j`. -/
def Drained (j : Nat) : DestroyPool ι → Prop
  | .draining i | .popped i _ => j < i
  | .returned => True
  | _ => False

theorem Drained.draining {j : Nat} {d : DestroyPool ι} (h : d.Drained j) : d.Draining := by
  cases d <;> trivial

theorem Draining.joined {d : DestroyPool ι} (h : d.Draining) (j : Nat) : d.Joined j := by
  cases d <;> trivial

end DestroyPool

namespace ThreadPool

variable {n : Nat} {ι : Type} [DecidableEq ι]

omit [DecidableEq ι] in
/-- What the code keeps true of the queues, the death pills and the phases. -/
structure Inv [DecidableEq ι] (s : ThreadPool n ι) : Prop where
  fifo : s.board.Fifo
  amount : ∀ c, s.board.amount (some c) = if (s.call c).Accepted then 1 else 0
  /-- a death pill is taken by the worker that it is for -/
  own : ∀ j who, (who, none) ∈ s.taken j → who = .worker j
  dying : ∀ i, (s.thread i).Dying ↔ (.worker i, none) ∈ s.taken i
  pills : ∀ j : Fin n, (s.entered j).count none = if s.dtor.Pushed j then 1 else 0
  joined : ∀ i : Fin n, s.dtor.Joined i → s.thread i = .stopped
  drained : ∀ (j : Fin n) c, s.dtor.Drained j → some c ∈ s.q j → s.late c = true
  early : ¬ s.dtor.Draining → ∀ c, s.late c = false
  real : none ∉ s.executed

theorem inv_init : (init : ThreadPool n ι).Inv where
  fifo _ := rfl
  amount c := by
    rw [WorkQueues.amount_eq_done (fun _ => List.not_mem_nil) fun t => by cases t <;> exact nofun]
    rfl
  own _ _ h := nomatch h
  dying _ := ⟨fun h => h.elim, fun h => nomatch h⟩
  pills _ := rfl
  joined _ h := h.elim
  drained _ _ h := h.elim
  early _ _ := rfl
  real h := nomatch h

/-! ### What a step can do -/

/-- A call goes on, or it pushes its job. -/
theorem runAsync_cases [NeZero n] (channel : ι → Int) (s : ThreadPool n ι) (c : ι) :
    (∃ pc r, s.runAsync channel c = { s with roundRobin := r }.callGoto c pc ∧
      (pc.Accepted ↔ (s.call c).Accepted)) ∨
    ∃ j, s.call c = .chosen j ∧ s.runAsync channel c =
      { (s.push j (some c)).callGoto c .pushed with
        late := Function.update s.late c (decide s.dtor.Draining) } := by
  -- a call that is refused or has returned stays where it is
  have hstay : s = { s with roundRobin := s.roundRobin }.callGoto c (s.call c) := by
    rw [callGoto]
    simp only [Function.update_eq_self]
  cases hc : s.call c with
  | called =>
    left
    unfold runAsync
    simp only [hc]
    by_cases hstop : s.shouldStop
    · -- the pool is being destroyed
      rw [if_pos hstop]
      exact ⟨.refused, s.roundRobin, rfl, Iff.rfl⟩
    · rw [if_neg hstop]
      exact ⟨.passed, s.roundRobin, rfl, Iff.rfl⟩
  | passed =>
    left
    unfold runAsync
    simp only [hc]
    by_cases hchannel : 0 ≤ channel c
    · -- a channel has a queue of its own
      rw [if_pos hchannel]
      exact ⟨_, s.roundRobin, rfl, Iff.rfl⟩
    · -- without one the queues take turns
      rw [if_neg hchannel]
      exact ⟨_, s.roundRobin + 1, rfl, Iff.rfl⟩
  | chosen j => exact .inr ⟨j, rfl, by rw [runAsync, hc]⟩
  | pushed => exact .inl ⟨.returned, s.roundRobin, by rw [runAsync, hc], Iff.rfl⟩
  | refused =>
    have hsame : s.runAsync channel c = s := by rw [runAsync, hc]
    rw [hc] at hstay
    exact .inl ⟨.refused, s.roundRobin, hsame.trans hstay, Iff.rfl⟩
  | returned =>
    have hsame : s.runAsync channel c = s := by rw [runAsync, hc]
    rw [hc] at hstay
    exact .inl ⟨.returned, s.roundRobin, hsame.trans hstay, Iff.rfl⟩

omit [DecidableEq ι] in
theorem goto_self (s : ThreadPool n ι) (i : Fin n) : s.goto i (s.thread i) = s := by
  simp only [goto, Function.update_eq_self]

omit [DecidableEq ι] in
/-- `try_pop` and `pop` find nothing, or take what is in front of the own queue. -/
theorem tryPop_cases (s : ThreadPool n ι) (i : Fin n) (next : RunThread n ι) :
    s.tryPop i next = s.goto i next ∨ ∃ x rest, s.q i = x :: rest ∧
      s.tryPop i next = (s.pop (.worker i) i x rest).goto i (.popped x) := by
  unfold tryPop
  cases hq : s.q i with
  | nil => exact .inl rfl
  | cons x rest => exact .inr ⟨x, rest, rfl, rfl⟩

omit [DecidableEq ι] in
/-- A worker goes on, takes something, or is done with it. What it takes from another queue is no
    death pill. -/
theorem runThread_cases (order : Fin n → List (Fin n)) (s : ThreadPool n ι) (i : Fin n) :
    (∃ pc, s.runThread order i = s.goto i pc ∧ (pc.Dying ↔ (s.thread i).Dying) ∧
      (s.thread i = .stopped → pc = .stopped)) ∨
    (∃ j x rest, s.q j = x :: rest ∧ ¬ (s.thread i).Dying ∧ (j = i ∨ x ≠ none) ∧
      s.runThread order i = (s.pop (.worker i) j x rest).goto i (.popped x)) ∨
    ∃ c, s.thread i = .popped (some c) ∧ s.runThread order i =
      { s with executed := s.executed ++ [some c] }.goto i .stage0 := by
  -- the stages that try the own queue: it is empty, or its front is taken
  have htry : ∀ next : RunThread n ι, ¬ (s.thread i).Dying → ¬ next.Dying →
      s.runThread order i = s.tryPop i next →
      (∃ pc, s.runThread order i = s.goto i pc ∧ (pc.Dying ↔ (s.thread i).Dying) ∧
        (s.thread i = .stopped → pc = .stopped)) ∨
      ∃ j x rest, s.q j = x :: rest ∧ ¬ (s.thread i).Dying ∧ (j = i ∨ x ≠ none) ∧
        s.runThread order i = (s.pop (.worker i) j x rest).goto i (.popped x) := by
    intro next hlive hnext heq
    rcases tryPop_cases s i next with hempty | ⟨x, rest, hq, hpop⟩
    · exact .inl ⟨next, heq.trans hempty, iff_of_false hnext hlive,
        fun hstop => absurd (by rw [hstop]; trivial) hlive⟩
    · exact .inr ⟨i, x, rest, hq, hlive, .inl rfl, heq.trans hpop⟩
  have hcases : ∀ {P Q R : Prop}, P ∨ Q → P ∨ Q ∨ R := fun h => h.imp_right .inl
  cases ht : s.thread i with
  | stage0 =>
    rw [ht] at htry
    exact hcases (htry .stage1 id id (by rw [runThread, ht]))
  | stage1 => exact .inl ⟨.stage2, by rw [runThread, ht], Iff.rfl, fun h => nomatch h⟩
  | stage2 =>
    rw [ht] at htry
    exact hcases (htry (.stage3 (order i)) id id (by rw [runThread, ht]))
  | stage3 rest =>
    cases rest with
    | nil => exact .inl ⟨.stage4, by rw [runThread, ht], Iff.rfl, fun h => nomatch h⟩
    | cons j rest =>
      by_cases hji : j = i
      · -- the own queue is left out when stealing
        refine .inl ⟨.stage3 rest, ?_, Iff.rfl, fun h => nomatch h⟩
        rw [runThread, ht]
        exact if_pos hji
      · match hq : s.q j with
        | [] =>
          -- nothing to steal
          refine .inl ⟨.stage3 rest, ?_, Iff.rfl, fun h => nomatch h⟩
          simp only [runThread, ht, if_neg hji, hq]
        | none :: _ =>
          -- a death pill in front is left to the owner
          refine .inl ⟨.stage3 rest, ?_, Iff.rfl, fun h => nomatch h⟩
          simp only [runThread, ht, if_neg hji, hq]
        | some c :: tail =>
          -- a job is stolen
          refine .inr (.inl ⟨j, some c, tail, hq, id, .inr (by simp), ?_⟩)
          simp only [runThread, ht, if_neg hji, hq]
  | stage4 =>
    rw [ht] at htry
    exact hcases (htry .stage4 id id (by rw [runThread, ht]))
  | popped job =>
    cases job with
    | none => exact .inl ⟨.stopped, by rw [runThread, ht]; rfl, Iff.rfl, fun h => nomatch h⟩
    | some c => exact .inr (.inr ⟨c, rfl, by rw [runThread, ht]; rfl⟩)
  | stopped =>
    have hsame : s.runThread order i = s := by rw [runThread, ht]
    refine .inl ⟨.stopped, hsame.trans ?_, Iff.rfl, fun _ => rfl⟩
    rw [← ht, goto_self]

/-! ### The queues and the amounts -/

omit [DecidableEq ι] in
theorem fifo_of_boardStep {b b' : WorkQueues (Fin n) (Taker n) (Option ι)}
    {w : Option (WorkOp (Fin n) (Taker n) (Option ι))} (hb : b.Fifo) (hstep : BoardStep b w b') :
    b'.Fifo := by
  cases w with
  | none => exact hstep ▸ hb
  | some w => exact hb.step hstep

/-- A step that pushes no job keeps the amounts of all jobs. -/
theorem amount_of_boardStep {b b' : WorkQueues (Fin n) (Taker n) (Option ι)}
    {w : Option (WorkOp (Fin n) (Taker n) (Option ι))} (hstep : BoardStep b w b') (c : ι)
    (hw : ∀ w', w = some w' → WorkQueues.puts (some c) w' = 0 ∧
      WorkQueues.discards (some c) w' = 0) : b'.amount (some c) = b.amount (some c) := by
  cases w with
  | none => rw [hstep]
  | some w =>
    obtain ⟨hputs, hdiscards⟩ := hw w rfl
    have := WorkQueues.amount_step hstep (some c)
    omega

/-- Taking from the front of a queue pushes and discards no job. -/
theorem frontMove_jobs (s : ThreadPool n ι) (who : Taker n) (j : Fin n) (c : ι)
    {w : WorkOp (Fin n) (Taker n) (Option ι)} (hw : s.frontMove who j = some w) :
    WorkQueues.puts (some c) w = 0 ∧ WorkQueues.discards (some c) w = 0 := by
  obtain ⟨x, -, rfl⟩ := Option.map_eq_some_iff.mp hw
  exact ⟨rfl, rfl⟩

/-- A popped job is not discarded. -/
theorem handMove_jobs (who : Taker n) (job : Option ι) (c : ι) :
    WorkQueues.puts (some c) (handMove who job) = 0 ∧
      WorkQueues.discards (some c) (handMove who job) = 0 := by
  cases job with
  | none => exact ⟨rfl, by simp [handMove, WorkQueues.discards]⟩
  | some d => exact ⟨rfl, rfl⟩

theorem workerMove_jobs (s : ThreadPool n ι) (i : Fin n) (c : ι)
    {w : WorkOp (Fin n) (Taker n) (Option ι)} (hw : s.workerMove i = some w) :
    WorkQueues.puts (some c) w = 0 ∧ WorkQueues.discards (some c) w = 0 := by
  unfold workerMove at hw
  cases ht : s.thread i with
  | stage0 => exact s.frontMove_jobs _ _ c (by simpa only [ht] using hw)
  | stage1 => simp [ht] at hw
  | stage2 => exact s.frontMove_jobs _ _ c (by simpa only [ht] using hw)
  | stage3 order =>
    cases order with
    | nil => simp [ht] at hw
    | cons j rest =>
      -- a job may be stolen
      simp only [ht] at hw
      split at hw
      · cases hw
      · split at hw
        · cases hw
          exact ⟨rfl, rfl⟩
        · cases hw
  | stage4 => exact s.frontMove_jobs _ _ c (by simpa only [ht] using hw)
  | popped job =>
    -- what is in the hand is not discarded if it is a job
    simp only [ht] at hw
    cases hw
    exact handMove_jobs _ _ c
  | stopped => simp [ht] at hw

theorem destroyMove_jobs (s : ThreadPool n ι) (c : ι) {w : WorkOp (Fin n) (Taker n) (Option ι)}
    (hw : s.destroyMove = some w) :
    WorkQueues.puts (some c) w = 0 ∧ WorkQueues.discards (some c) w = 0 := by
  unfold destroyMove at hw
  cases hd : s.dtor with
  | alive => simp [hd] at hw
  | pushing i =>
    -- death pills are no jobs
    simp only [hd] at hw
    split at hw
    · cases hw
      exact ⟨by simp [WorkQueues.puts], rfl⟩
    · cases hw
  | joining i => simp [hd] at hw
  | draining i =>
    -- neither is a job discarded when it is taken
    simp only [hd] at hw
    split at hw
    · exact s.frontMove_jobs _ _ c hw
    · cases hw
  | popped i job =>
    simp only [hd] at hw
    cases hw
    exact handMove_jobs _ _ c
  | returned => simp [hd] at hw

/-! ### Every step preserves the invariant -/

omit [DecidableEq ι] in
/-- Who has taken a null pointer, after one more thing was taken. -/
theorem null_taken_iff {s : ThreadPool n ι} {who t : Taker n} {j k : Fin n} {x : Option ι} :
    (who, none) ∈ Function.update s.taken j (s.taken j ++ [(t, x)]) k ↔
      (who, none) ∈ s.taken k ∨ (k = j ∧ who = t ∧ x = none) := by
  by_cases hkj : k = j
  · subst hkj
    simp [eq_comm]
  · simp [hkj]

section Preserved

variable {s : ThreadPool n ι} (hI : s.Inv)

include hI

theorem Inv.runAsync [NeZero n] (channel : ι → Int) (c : ι) : (s.runAsync channel c).Inv := by
  have hstep := board_runAsync channel s c
  have hfifo := fifo_of_boardStep hI.fifo hstep
  rcases runAsync_cases channel s c with ⟨pc, r, heq, hpc⟩ | ⟨j, hc, heq⟩
  · rw [heq] at hfifo ⊢
    -- the call goes on, and no job has moved
    refine ⟨hfifo, fun d => ?_, hI.own, hI.dying, hI.pills, hI.joined, hI.drained, hI.early, hI.real⟩
    show s.board.amount (some d) = if (Function.update s.call c pc d).Accepted then 1 else 0
    rw [hI.amount]
    by_cases hd : d = c
    · subst hd
      simp only [Function.update_self, hpc]
    · rw [Function.update_of_ne hd]
  · rw [heq] at hstep hfifo ⊢
    simp only [callMove, hc] at hstep
    -- the call pushes its job
    refine ⟨hfifo, fun d => ?_, hI.own, hI.dying, fun k => ?_, hI.joined, fun k d hk hmem => ?_,
      fun hd d => ?_, hI.real⟩
    · -- one more of this job, and of no other one
      have hamount := WorkQueues.amount_step hstep (some d)
      have hbefore := hI.amount d
      show _ = if (Function.update s.call c .pushed d).Accepted then 1 else 0
      by_cases hd : d = c
      · subst hd
        rw [hc] at hbefore
        have hone : WorkQueues.puts (some d) (.put j (some d) : WorkOp _ (Taker n) _) = 1 := by
          simp [WorkQueues.puts]
        rw [hone, hbefore] at hamount
        rw [Function.update_self]
        exact hamount
      · have hzero : WorkQueues.puts (some d) (.put j (some c) : WorkOp _ (Taker n) _) = 0 := by
          simp [WorkQueues.puts, Ne.symm hd]
        rw [hzero, hbefore] at hamount
        rw [Function.update_of_ne hd]
        exact hamount
    · -- a job is no death pill
      refine Eq.trans ?_ (hI.pills k)
      show (Function.update s.entered j (s.entered j ++ [some c]) k).count none =
        (s.entered k).count none
      by_cases hkj : k = j
      · subst hkj
        simp
      · rw [Function.update_of_ne hkj]
    · -- after the queue was drained only late jobs are in it
      show Function.update s.late c (decide s.dtor.Draining) d = true
      by_cases hd : d = c
      · subst hd
        rw [Function.update_self]
        exact decide_eq_true (DestroyPool.Drained.draining hk)
      · rw [Function.update_of_ne hd]
        refine hI.drained k d hk ?_
        have hmem : some d ∈ Function.update s.q j (s.q j ++ [some c]) k := hmem
        by_cases hkj : k = j
        · subst hkj
          simpa [hd] using hmem
        · rwa [Function.update_of_ne hkj] at hmem
    · -- a job that is pushed before is not late
      show Function.update s.late c (decide s.dtor.Draining) d = false
      by_cases hdc : d = c
      · subst hdc
        rw [Function.update_self]
        exact decide_eq_false hd
      · rw [Function.update_of_ne hdc]
        exact hI.early hd d

/-- A worker that is joined takes no step. -/
theorem Inv.not_joined {i : Fin n} (hlive : ¬ (s.thread i).Dying) : ¬ s.dtor.Joined i := by
  intro hjoined
  rw [hI.joined i hjoined] at hlive
  exact hlive trivial

/-- A worker that goes on has popped its death pill as before. -/
theorem Inv.dying_goto {i : Fin n} {pc : RunThread n ι} (hpc : pc.Dying ↔ (s.thread i).Dying)
    (k : Fin n) :
    (Function.update s.thread i pc k).Dying ↔ (.worker k, none) ∈ s.taken k := by
  by_cases hki : k = i
  · subst hki
    rw [Function.update_self, hpc, hI.dying]
  · rw [Function.update_of_ne hki, hI.dying]

/-- A worker that goes on is not joined, or has stopped. -/
theorem Inv.joined_goto {i : Fin n} {pc : RunThread n ι} (hpc : s.dtor.Joined i → pc = .stopped)
    (k : Fin n) (hk : s.dtor.Joined k) : Function.update s.thread i pc k = .stopped := by
  by_cases hki : k = i
  · subst hki
    rw [Function.update_self, hpc hk]
  · rw [Function.update_of_ne hki, hI.joined k hk]

/-- Popping leaves no more jobs behind the drain. -/
theorem Inv.drained_pop {j : Fin n} {x : Option ι} {rest : List (Option ι)} (hq : s.q j = x :: rest)
    {k : Fin n} {c : ι} (hk : s.dtor.Drained k) (hmem : some c ∈ Function.update s.q j rest k) :
    s.late c = true := by
  refine hI.drained k c hk ?_
  by_cases hkj : k = j
  · subst hkj
    rw [Function.update_self] at hmem
    exact hq ▸ List.mem_cons_of_mem _ hmem
  · rwa [Function.update_of_ne hkj] at hmem

/-- A worker that takes its death pill is dying, and no other one. -/
theorem Inv.dying_pop {i j : Fin n} {x : Option ι} (hlive : ¬ (s.thread i).Dying)
    (hown : j = i ∨ x ≠ none) (k : Fin n) :
    (Function.update s.thread i (.popped x) k).Dying ↔
      (.worker k, none) ∈ Function.update s.taken j (s.taken j ++ [(.worker i, x)]) k := by
  rw [null_taken_iff, ← hI.dying k]
  by_cases hki : k = i
  · -- the worker that takes something
    subst hki
    rw [Function.update_self]
    -- a null pointer is the death pill of its own queue
    cases x with
    | none =>
      rcases hown with rfl | hne
      · exact iff_of_true trivial (.inr ⟨rfl, rfl, rfl⟩)
      · exact absurd rfl hne
    | some c =>
      refine iff_of_false id ?_
      rintro (hdying | ⟨-, -, hnull⟩)
      · exact hlive hdying
      · cases hnull
  · -- the other workers
    rw [Function.update_of_ne hki]
    refine (or_iff_left ?_).symm
    rintro ⟨-, hwho, -⟩
    exact hki (Taker.worker.inj hwho)

theorem Inv.runThread (order : Fin n → List (Fin n)) (i : Fin n) : (s.runThread order i).Inv := by
  have hstep := board_runThread order s i
  have hfifo := fifo_of_boardStep hI.fifo hstep
  have hamount : ∀ c, (s.runThread order i).board.amount (some c) =
      if (s.call c).Accepted then 1 else 0 := fun c =>
    (amount_of_boardStep hstep c fun _ hw => workerMove_jobs s i c hw).trans (hI.amount c)
  rcases runThread_cases order s i with ⟨pc, heq, hpc, hstop⟩ | ⟨j, x, rest, hq, hlive, hown, heq⟩ |
    ⟨c, hc, heq⟩
  · -- the worker goes on without a job
    rw [heq] at hfifo hamount ⊢
    exact ⟨hfifo, hamount, hI.own, hI.dying_goto hpc, hI.pills,
      hI.joined_goto fun hjoined => hstop (hI.joined i hjoined), hI.drained, hI.early, hI.real⟩
  · rw [heq] at hfifo hamount ⊢
    refine ⟨hfifo, hamount, fun k who hmem => ?_, hI.dying_pop hlive hown, hI.pills,
      hI.joined_goto fun hjoined => absurd hjoined (hI.not_joined hlive),
      fun k c hk hmem => hI.drained_pop hq hk hmem, hI.early, hI.real⟩
    rcases null_taken_iff.mp hmem with hmem | ⟨rfl, rfl, rfl⟩
    · exact hI.own k who hmem
    · -- a null pointer was in front of the own queue
      rcases hown with rfl | hne
      · rfl
      · exact absurd rfl hne
  · have hlive : ¬ (s.thread i).Dying := by
      rw [hc]
      exact id
    rw [heq] at hfifo hamount ⊢
    refine ⟨hfifo, hamount, hI.own, hI.dying_goto (iff_of_false id hlive), hI.pills,
      hI.joined_goto fun hjoined => absurd hjoined (hI.not_joined hlive), hI.drained, hI.early, ?_⟩
    show none ∉ s.executed ++ [some c]
    simpa using hI.real

/-- In the final drain no death pill is left. -/
theorem Inv.no_pill (hd : s.dtor.Draining) (j : Fin n) : none ∉ s.q j := by
  intro hmem
  have hstopped := hI.joined j (hd.joined j)
  have htaken : (.worker j, none) ∈ s.taken j := (hI.dying j).mp (by rw [hstopped]; trivial)
  have hone : (s.entered j).count none ≤ 1 := by
    rw [hI.pills]
    split
    · exact le_refl 1
    · exact Nat.zero_le 1
  -- there would be two, the one that the worker has taken and this one
  have hfifo : s.entered j = (s.taken j).map Prod.snd ++ s.q j := hI.fifo j
  rw [hfifo, List.count_append] at hone
  have htook : 0 < ((s.taken j).map Prod.snd).count none :=
    List.count_pos_iff.mpr (List.mem_map_of_mem htaken)
  have hleft : 0 < (s.q j).count none := List.count_pos_iff.mpr hmem
  omega

/-- The destructor goes on. -/
theorem Inv.dtor_goto {d : DestroyPool ι} (hfifo : (board { s with dtor := d }).Fifo)
    (hamount : ∀ c, (board { s with dtor := d }).amount (some c) =
      if (s.call c).Accepted then 1 else 0)
    (hpushed : ∀ j : Fin n, d.Pushed j ↔ s.dtor.Pushed j)
    (hjoined : ∀ i : Fin n, d.Joined i → s.thread i = .stopped)
    (hdrained : ∀ (j : Fin n) c, d.Drained j → some c ∈ s.q j → s.late c = true)
    (hearly : ¬ d.Draining → ¬ s.dtor.Draining) : Inv { s with dtor := d } :=
  ⟨hfifo, hamount, hI.own, hI.dying, fun j => (hI.pills j).trans (by simp only [hpushed]), hjoined,
    hdrained, fun h => hI.early (hearly h), hI.real⟩

/-- A death pill is pushed. -/
theorem Inv.push_pill {i : Nat} (hd : s.dtor = .pushing i) (h : i < n)
    (hfifo : (board { s.push ⟨i, h⟩ none with dtor := .pushing (i + 1) }).Fifo)
    (hamount : ∀ c, (board { s.push ⟨i, h⟩ none with dtor := .pushing (i + 1) }).amount (some c) =
      if (s.call c).Accepted then 1 else 0) :
    Inv { s.push ⟨i, h⟩ none with dtor := .pushing (i + 1) } := by
  refine ⟨hfifo, hamount, hI.own, hI.dying, fun j => ?_, fun _ hk => hk.elim,
    fun _ _ hk => hk.elim, fun _ => hI.early (by rw [hd]; exact id), hI.real⟩
  have hold := hI.pills j
  rw [hd] at hold
  show (Function.update s.entered ⟨i, h⟩ (s.entered ⟨i, h⟩ ++ [none]) j).count none =
    if (j : Nat) < i + 1 then 1 else 0
  have hold : (s.entered j).count none = if (j : Nat) < i then 1 else 0 := hold
  by_cases hji : j = ⟨i, h⟩
  · subst hji
    rw [Function.update_self, List.count_append, hold, if_neg (by simp), if_pos (by simp)]
    simp
  · have hne : (j : Nat) ≠ i := fun heq => hji (Fin.ext heq)
    rw [Function.update_of_ne hji, hold]
    by_cases hlt : (j : Nat) < i
    · rw [if_pos hlt, if_pos (by omega)]
    · rw [if_neg hlt, if_neg (by omega)]

theorem Inv.destroy (hguard : s.Guard .destructor) : s.destroy.Inv := by
  have hstep := board_destroy s
  have hfifo := fifo_of_boardStep hI.fifo hstep
  have hamount : ∀ c, s.destroy.board.amount (some c) = if (s.call c).Accepted then 1 else 0 :=
    fun c => (amount_of_boardStep hstep c fun _ hw => destroyMove_jobs s c hw).trans (hI.amount c)
  obtain ⟨-, hjoin⟩ := hguard
  clear hstep
  cases hd : s.dtor with
  | alive =>
    have heq : s.destroy = { s with shouldStop := true, dtor := .pushing 0 } := by
      rw [ThreadPool.destroy, hd]
    rw [heq] at hfifo hamount ⊢
    have hpills := hI.pills
    rw [hd] at hpills
    exact ⟨hfifo, hamount, hI.own, hI.dying, hpills, fun _ hk => hk.elim, fun _ _ hk => hk.elim,
      fun _ => hI.early (by rw [hd]; exact id), hI.real⟩
  | pushing i =>
    by_cases h : i < n
    · have heq : s.destroy = { s.push ⟨i, h⟩ none with dtor := .pushing (i + 1) } := by
        simp only [ThreadPool.destroy, hd, dif_pos h]
      rw [heq] at hfifo hamount ⊢
      exact hI.push_pill hd h hfifo hamount
    · have heq : s.destroy = { s with dtor := .joining 0 } := by
        simp only [ThreadPool.destroy, hd, dif_neg h]
      rw [heq] at hfifo hamount ⊢
      refine hI.dtor_goto hfifo hamount (fun j => ?_) (fun k hk => absurd hk (Nat.not_lt_zero _))
        (fun _ _ hk => hk.elim) fun _ => by rw [hd]; exact id
      rw [hd]
      exact iff_of_true trivial (Nat.lt_of_lt_of_le j.isLt (Nat.not_lt.mp h))
  | joining i =>
    have hjoined := hI.joined
    rw [hd] at hjoined
    by_cases h : i < n
    · have heq : s.destroy = { s with dtor := .joining (i + 1) } := by
        simp only [ThreadPool.destroy, hd, if_pos h]
      rw [heq] at hfifo hamount ⊢
      refine hI.dtor_goto hfifo hamount (fun j => by rw [hd]; exact Iff.rfl) (fun k hk => ?_)
        (fun _ _ hk => hk.elim) fun _ => by rw [hd]; exact id
      -- the worker `i` has just been waited for
      rcases Nat.lt_succ_iff_lt_or_eq.mp hk with hlt | heq
      · exact hjoined k hlt
      · exact hjoin k (by rw [hd, heq])
    · have heq : s.destroy = { s with dtor := .draining 0 } := by
        simp only [ThreadPool.destroy, hd, if_neg h]
      rw [heq] at hfifo hamount ⊢
      exact hI.dtor_goto hfifo hamount (fun j => by rw [hd]; exact Iff.rfl)
        (fun k _ => hjoined k (Nat.lt_of_lt_of_le k.isLt (Nat.not_lt.mp h)))
        (fun _ _ hk => absurd hk (Nat.not_lt_zero _)) fun hnot => absurd trivial hnot
  | draining i =>
    have hdraining : s.dtor.Draining := by
      rw [hd]
      trivial
    have hjoined : ∀ k, s.thread k = .stopped := fun k => hI.joined k (hdraining.joined k)
    have hdrained := hI.drained
    rw [hd] at hdrained
    by_cases h : i < n
    · cases hq : s.q ⟨i, h⟩ with
      | nil =>
        have heq : s.destroy = { s with dtor := .draining (i + 1) } := by
          simp only [ThreadPool.destroy, hd, dif_pos h, hq]
        rw [heq] at hfifo hamount ⊢
        refine hI.dtor_goto hfifo hamount (fun j => by rw [hd]; exact Iff.rfl)
          (fun k _ => hjoined k) (fun j c hk hmem => ?_) fun hnot => absurd trivial hnot
        rcases Nat.lt_succ_iff_lt_or_eq.mp hk with hlt | hji
        · exact hdrained j c hlt hmem
        · obtain rfl : j = ⟨i, h⟩ := Fin.ext hji
          rw [hq] at hmem
          cases hmem
      | cons x rest =>
        have heq : s.destroy =
            { s.pop .destructor ⟨i, h⟩ x rest with dtor := .popped i x } := by
          simp only [ThreadPool.destroy, hd, dif_pos h, hq]
        rw [heq] at hfifo hamount ⊢
        have hx : x ≠ none := fun hnone =>
          hI.no_pill hdraining ⟨i, h⟩ (by rw [hq, hnone]; exact .head _)
        refine ⟨hfifo, hamount, fun k who hmem => ?_, fun k => ?_, fun k => ?_, fun k _ => hjoined k,
          fun k c hk hmem => ?_, fun hnot => absurd trivial hnot, hI.real⟩
        · rcases null_taken_iff.mp hmem with hmem | ⟨-, -, hnone⟩
          · exact hI.own k who hmem
          · exact absurd hnone hx
        · refine (hI.dying k).trans (Iff.symm (null_taken_iff.trans (or_iff_left ?_)))
          rintro ⟨-, -, hnone⟩
          exact hx hnone
        · have hpills := hI.pills k
          rw [hd] at hpills
          exact hpills
        · exact hI.drained_pop hq (by rw [hd]; exact hk) hmem
    · have heq : s.destroy = { s with dtor := .returned } := by
        simp only [ThreadPool.destroy, hd, dif_neg h]
      rw [heq] at hfifo hamount ⊢
      exact hI.dtor_goto hfifo hamount (fun j => by rw [hd]; exact Iff.rfl) (fun k _ => hjoined k)
        (fun j c _ => hdrained j c (Nat.lt_of_lt_of_le j.isLt (Nat.not_lt.mp h)))
        fun hnot => absurd trivial hnot
  | popped i job =>
    have hdraining : s.dtor.Draining := by
      rw [hd]
      trivial
    have heq : s.destroy = { s.execute job with dtor := .draining i } := by
      rw [ThreadPool.destroy, hd]
    have hpills := hI.pills
    have hdrained := hI.drained
    rw [hd] at hpills hdrained
    rw [heq] at hfifo hamount ⊢
    have hjoined : ∀ k, s.thread k = .stopped := fun k => hI.joined k (hdraining.joined k)
    cases job with
    | none => exact ⟨hfifo, hamount, hI.own, hI.dying, hpills, fun k _ => hjoined k, hdrained,
        fun hnot => absurd trivial hnot, hI.real⟩
    | some c =>
      refine ⟨hfifo, hamount, hI.own, hI.dying, hpills, fun k _ => hjoined k, hdrained,
        fun hnot => absurd trivial hnot, ?_⟩
      show none ∉ s.executed ++ [some c]
      simpa using hI.real
  | returned =>
    have heq : s.destroy = s := by rw [ThreadPool.destroy, hd]
    rw [heq]
    exact hI

end Preserved

section Runs

variable [NeZero n] {channel : ι → Int} {order : Fin n → List (Fin n)}

/-- **One step** preserves the invariant. -/
theorem Inv.step {s : ThreadPool n ι} (hI : s.Inv) {op : Op n ι} (hguard : s.Guard op) :
    (s.effect channel order op).Inv := by
  cases op with
  | call c => exact hI.runAsync channel c
  | worker i => exact hI.runThread order i
  | destructor => exact hI.destroy hguard

/-- The invariant holds in every state of every run. -/
theorem inv_of_run {ops : List (Op n ι)} {s : ThreadPool n ι}
    (hrun : Steps (Next channel order) init ops s) : s.Inv :=
  Steps.guarded_invariant (P := fun s => s.Inv) (fun _ _ hI hguard => hI.step hguard) hrun inv_init

omit [DecidableEq ι] [NeZero n] in
/-- What a worker does is no business of the calls. -/
theorem runThread_calls (order : Fin n → List (Fin n)) (s : ThreadPool n ι) (i : Fin n) :
    (s.runThread order i).call = s.call ∧ (s.runThread order i).late = s.late := by
  rcases runThread_cases order s i with ⟨pc, heq, -⟩ | ⟨j, x, rest, -, -, -, heq⟩ | ⟨c, -, heq⟩
  · rw [heq]
    exact ⟨rfl, rfl⟩
  · rw [heq]
    exact ⟨rfl, rfl⟩
  · rw [heq]
    exact ⟨rfl, rfl⟩

omit [DecidableEq ι] [NeZero n] in
/-- Neither is what the destructor does. -/
theorem destroy_calls (s : ThreadPool n ι) :
    s.destroy.call = s.call ∧ s.destroy.late = s.late := by
  unfold destroy
  cases s.dtor with
  | alive => exact ⟨rfl, rfl⟩
  | pushing i =>
    simp only
    split
    · exact ⟨rfl, rfl⟩
    · exact ⟨rfl, rfl⟩
  | joining i =>
    simp only
    split
    · exact ⟨rfl, rfl⟩
    · exact ⟨rfl, rfl⟩
  | draining i =>
    simp only
    split
    · split
      · exact ⟨rfl, rfl⟩
      · exact ⟨rfl, rfl⟩
    · exact ⟨rfl, rfl⟩
  | popped i job => cases job <;> exact ⟨rfl, rfl⟩
  | returned => exact ⟨rfl, rfl⟩

/-- A job that was accepted before the final drain stays one. -/
theorem accepted_step {s : ThreadPool n ι} {c : ι}
    (hc : (s.call c).Accepted ∧ s.late c = false) (op : Op n ι) :
    ((s.effect channel order op).call c).Accepted ∧ (s.effect channel order op).late c = false := by
  cases op with
  | call d =>
    show ((s.runAsync channel d).call c).Accepted ∧ (s.runAsync channel d).late c = false
    rcases runAsync_cases channel s d with ⟨pc, r, heq, hpc⟩ | ⟨j, hd, heq⟩
    · rw [heq]
      refine ⟨?_, hc.2⟩
      show (Function.update s.call d pc c).Accepted
      by_cases hcd : c = d
      · subst hcd
        rw [Function.update_self, hpc]
        exact hc.1
      · rw [Function.update_of_ne hcd]
        exact hc.1
    · have hcd : c ≠ d := by
        rintro rfl
        rw [hd] at hc
        exact hc.1
      rw [heq]
      show (Function.update s.call d .pushed c).Accepted ∧
        Function.update s.late d (decide s.dtor.Draining) c = false
      rw [Function.update_of_ne hcd, Function.update_of_ne hcd]
      exact hc
  | worker i =>
    obtain ⟨hcall, hlate⟩ := runThread_calls order s i
    show ((s.runThread order i).call c).Accepted ∧ (s.runThread order i).late c = false
    rwa [hcall, hlate]
  | destructor =>
    obtain ⟨hcall, hlate⟩ := s.destroy_calls
    show (s.destroy.call c).Accepted ∧ s.destroy.late c = false
    rwa [hcall, hlate]

omit [NeZero n] in
/-- Once the destructor has returned, a job that was not late is executed. -/
theorem Inv.executed_of_returned {s : ThreadPool n ι} (hI : s.Inv) (hd : s.dtor = .returned) {c : ι}
    (hc : (s.call c).Accepted ∧ s.late c = false) : s.executed.count (some c) = 1 := by
  have hdrained := hI.drained
  have hjoined := hI.joined
  rw [hd] at hdrained hjoined
  have hqueue : ∀ j, some c ∉ s.board.queue j := by
    intro j hmem
    have hlate := hdrained j c trivial hmem
    rw [hc.2] at hlate
    cases hlate
  have hhand : ∀ t, s.board.hand t ≠ some (some c) := by
    intro t
    cases t with
    | worker i =>
      show (s.thread i).hand ≠ _
      rw [hjoined i trivial]
      exact nofun
    | destructor =>
      show s.dtor.hand ≠ _
      rw [hd]
      exact nofun
  have hamount := WorkQueues.amount_eq_done hqueue hhand
  rw [hI.amount, if_pos hc.1] at hamount
  exact hamount.symm

/-- A job that was accepted when the destructor had not begun its final drain is executed once, if
    the run goes on until the destructor has returned. -/
theorem executed_of_returned {s s' : ThreadPool n ι} {ops ops' : List (Op n ι)}
    (hrun : Steps (Next channel order) init ops s) {c : ι} (hc : s.call c = .returned)
    (hearly : ¬ s.dtor.Draining) (hrun' : Steps (Next channel order) s ops' s')
    (hd : s'.dtor = .returned) : s'.executed.count (some c) = 1 := by
  have haccepted : (s.call c).Accepted ∧ s.late c = false := by
    rw [hc]
    exact ⟨trivial, (inv_of_run hrun).early hearly c⟩
  have hkept : (s'.call c).Accepted ∧ s'.late c = false :=
    Steps.guarded_invariant (P := fun s => (s.call c).Accepted ∧ s.late c = false)
      (fun _ op h _ => accepted_step h op) hrun' haccepted
  exact (inv_of_run (hrun.append hrun')).executed_of_returned hd hkept

end Runs

end ThreadPool

/-- **Every job once**: in every run of a pool with any number of workers, whatever the channels of
    the calls and the orders of stealing, no job is executed twice and no null pointer is called; a
    death pill is taken by the worker of its queue alone, which stops after that and not before;
    what leaves a queue leaves it in the order in which it has entered; and a job for which
    `run_async` has returned `0` before the final drain is executed once when the destructor has
    returned. -/
theorem every_job_once {n : Nat} [NeZero n] {ι : Type} [DecidableEq ι] (channel : ι → Int)
    (order : Fin n → List (Fin n)) (ops : List (ThreadPool.Op n ι)) (s : ThreadPool n ι)
    (hrun : Steps (ThreadPool.Next channel order) ThreadPool.init ops s) :
    (∀ c, s.executed.count (some c) ≤ 1) ∧ none ∉ s.executed ∧
    (∀ j who, (who, none) ∈ s.taken j → who = .worker j) ∧
    (∀ i, s.thread i = .popped none ∨ s.thread i = .stopped ↔ (.worker i, none) ∈ s.taken i) ∧
    (∀ j, s.entered j = (s.taken j).map Prod.snd ++ s.q j) ∧
    ∀ c, s.call c = .returned → ¬ s.dtor.Draining → ∀ ops' s',
      Steps (ThreadPool.Next channel order) s ops' s' → s'.dtor = .returned →
        s'.executed.count (some c) = 1 := by
  have hI := ThreadPool.inv_of_run hrun
  refine ⟨fun c => ?_, hI.real, hI.own, fun i => ?_, hI.fifo, fun c hc hearly ops' s' hrun' hd => ?_⟩
  · have hle := s.board.done_le_amount (some c)
    rw [hI.amount] at hle
    refine hle.trans ?_
    split
    · exact le_refl 1
    · exact Nat.zero_le 1
  · rw [← hI.dying i]
    cases s.thread i with
    | popped job => cases job <;> simp [RunThread.Dying]
    | stopped => simp [RunThread.Dying]
    | _ => simp [RunThread.Dying]
  · exact ThreadPool.executed_of_returned hrun hc hearly hrun' hd

/-- Two workers. The second one steals the first job and takes its own pill behind the second job,
    which was pushed on its queue. -/
theorem every_job_once_two :
    ∃ s s' : ThreadPool 2 Bool,
      Steps (ThreadPool.Next (fun c => if c then 1 else -1) fun _ => [0, 1]) ThreadPool.init
        (List.replicate 4 (.call false) ++ List.replicate 5 (.worker 1) ++
          List.replicate 4 (.call true)) s ∧
      Steps (ThreadPool.Next (fun c => if c then 1 else -1) fun _ => [0, 1]) s
        (List.replicate 4 .destructor ++ List.replicate 2 (.worker 0) ++
          List.replicate 4 (.worker 1) ++ List.replicate 6 .destructor) s' ∧
      s'.executed.count (some true) = 1 := by
  refine ⟨_, _, Steps.of_passes (by decide), Steps.of_passes (by decide), ?_⟩
  exact (every_job_once _ _ _ _ (Steps.of_passes (by decide))).2.2.2.2.2 true (by decide) (by decide)
    _ _ (Steps.of_passes (by decide)) (by decide)

end SimpleRpc.Base
