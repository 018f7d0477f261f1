import Mathlib.Algebra.Order.Group.Int
import Mathlib.Algebra.Order.Group.Unbundled.Basic
import SimpleRpc.Lib.Agenda

/-!
# Jobs With a Due Time (`base/threading.cc`)

`run_later` puts a job with a due time into a priority queue. The thread of the object takes the
earliest job when it is due and waits otherwise. The destructor tells it to stop and pushes a null
pointer with the due time 0; the thread goes on until the queue is empty.

## Layers

- **Code**: `RunLater.runLater`, `RunLater.runLaterLoop`, `RunLater.tryOneJob` and
  `RunLater.destroy`, one access to shared data or to the clock a step
- **System**: `RunLater.Next`, any interleaving of any number of calls, the thread, the destructor
  and the clock
- **Abstract**: `RunLater.agenda`, an agenda of `SimpleRpc.Lib.Agenda`; a step of the object is a
  step of the agenda, or none
- **Invariant**: `RunLater.Inv`

## Main results

- `run_later_once`: what was accepted is executed once, when it is due and in this order

## Model

- times are the elements of an ordered group; the clock does not go back
- a call of `run_later` is named by the job that it makes, `none` is the null pointer; `addr` says
  where a job is allocated, for `job_t`s with one due time are ordered by their pointers
- the thread alone keeps the mutex over several steps, the others take it and release it in one
- a wait ends at any time, whatever its deadline is and whether there was a signal; that the deadline
  is a valid one is the business of `SimpleRpc.Base.Deadline`
- a job runs in one step and does not call `run_later`, which would wait for the mutex for ever
- once the destructor has returned there is no object to call
-/

namespace SimpleRpc.Base

open SimpleRpc.Lib

/-- `job_t` -/
abbrev Job (τ ι : Type) := τ × Option ι

/-- Where a call of `run_later` is. -/
inductive RunLaterCall where
  | called
  /-- `EPERM` -/
  | refused
  /-- it has found `should_stop_` false -/
  | passed
  /-- it has computed `later` -/
  | timed
  /-- behind `latest_l_.unlock()` -/
  | noted
  | pushed
  /-- `0` -/
  | returned
  deriving DecidableEq

/-- Where the thread is in `try_one_job`. -/
inductive TryOneJob (τ ι : Type) where
  | locking
  /-- it has the mutex -/
  | looking
  /-- `j` is `jobs_.top()`, the clock has shown `now` -/
  | looked (j : Job τ ι) (now : τ)
  /-- it has called `*j.second` -/
  | executed (j : Job τ ι)
  /-- in `pthread_cond_timedwait` or `pthread_cond_wait` -/
  | waiting
  | unlocking
  deriving DecidableEq

/-- Where it is in `run_later_loop`. -/
inductive RunLaterLoop (τ ι : Type) where
  /-- `while (!should_stop_)` -/
  | running
  /-- `while (!done)` -/
  | draining
  /-- `try_one_job`, called in the second loop if `drain` -/
  | trying (drain : Bool) (pc : TryOneJob τ ι)
  | stopped
  deriving DecidableEq

/-- Where the destructor is. -/
inductive DestroyRunLater where
  | alive
  | stopping
  | joining
  | returned
  deriving DecidableEq

/-- `class RunLater` -/
structure RunLater (τ ι : Type) where
  clock : τ
  shouldStop : Bool
  latest : τ
  jobs : List (Job τ ι)
  call : ι → RunLaterCall
  /-- the variable `later` of a call -/
  later : ι → τ
  thread : RunLaterLoop τ ι
  dtor : DestroyRunLater
  /-- ghost: pushed when the thread had stopped -/
  late : Option ι → Bool
  /-- ghost: the pointers that were called -/
  executed : List (Option ι)

/-- The thread has the mutex. -/
def RunLaterLoop.Holds {τ ι : Type} : RunLaterLoop τ ι → Prop
  | .trying _ .looking | .trying _ (.looked _ _) | .trying _ (.executed _) | .trying _ .unlocking =>
    True
  | _ => False

instance {τ ι : Type} : DecidablePred (@RunLaterLoop.Holds τ ι)
  | .running | .draining | .stopped | .trying _ .locking | .trying _ .waiting => isFalse id
  | .trying _ .looking | .trying _ (.looked _ _) | .trying _ (.executed _) | .trying _ .unlocking =>
    isTrue trivial

namespace RunLater

variable {τ ι : Type} [AddCommGroup τ] [LinearOrder τ] [DecidableEq ι]

/-! ## The code -/

omit [AddCommGroup τ] [DecidableEq ι] in
/-- Pairs are compared by the due times, then by the pointers; `addr` is where a job is allocated. -/
def Earlier (addr : ι → Nat) (a b : Job τ ι) : Prop :=
  a.1 < b.1 ∨ a.1 = b.1 ∧ a.2.elim 0 addr ≤ b.2.elim 0 addr

instance (addr : ι → Nat) : DecidableRel (Earlier (τ := τ) addr) := fun a b =>
  inferInstanceAs (Decidable (a.1 < b.1 ∨ a.1 = b.1 ∧ a.2.elim 0 addr ≤ b.2.elim 0 addr))

omit [LinearOrder τ] [DecidableEq ι] in
/-- The thread is created at the time `t₀`, nobody has called. -/
def init (t₀ : τ) : RunLater τ ι where
  clock := t₀
  shouldStop := false
  latest := 0
  jobs := []
  call _ := .called
  later _ := 0
  thread := .running
  dtor := .alive
  late _ := false
  executed := []

/-- `jobs_.push(j)` -/
def push (addr : ι → Nat) (s : RunLater τ ι) (j : Job τ ι) : RunLater τ ι :=
  { s with jobs := s.jobs.orderedInsert (Earlier addr) j
           late := Function.update s.late j.2 (decide (s.thread = .stopped)) }

omit [AddCommGroup τ] [LinearOrder τ] in
/-- A call goes on. -/
def callGoto (s : RunLater τ ι) (c : ι) (pc : RunLaterCall) : RunLater τ ι :=
  { s with call := Function.update s.call c pc }

/-- `run_later`; `sec` is the first argument of every call. -/
def runLater (addr : ι → Nat) (sec : ι → τ) (s : RunLater τ ι) (c : ι) : RunLater τ ι :=
  match s.call c with
  | .called => if s.shouldStop then s.callGoto c .refused else s.callGoto c .passed
  | .passed =>
    let later := if 0 < sec c then s.clock + sec c else s.clock
    { s with later := Function.update s.later c later }.callGoto c .timed
  | .timed =>
    { s with latest := if s.latest < s.later c then s.later c else s.latest }.callGoto c .noted
  | .noted => (s.push addr (s.later c, some c)).callGoto c .pushed
  | .pushed => s.callGoto c .returned
  | .refused | .returned => s

omit [DecidableEq ι] in
/-- `try_one_job` -/
def tryOneJob (s : RunLater τ ι) (drain : Bool) : TryOneJob τ ι → RunLater τ ι
  | .locking => { s with thread := .trying drain .looking }
  | .looking =>
    match s.jobs with
    | j :: _ => { s with thread := .trying drain (.looked j s.clock) }
    | [] => { s with thread := .trying drain .waiting }
  | .looked j now =>
    if j.1 - now < 0 then
      -- the death pill is popped and not called
      if j.2.isNone then { s with jobs := s.jobs.tail, thread := .trying drain .unlocking }
      else { s with executed := s.executed ++ [j.2], thread := .trying drain (.executed j) }
    else { s with thread := .trying drain .waiting }
  | .executed _ => { s with jobs := s.jobs.tail, thread := .trying drain .unlocking }
  | .waiting => { s with thread := .trying drain .unlocking }
  | .unlocking => { s with thread := if drain then .draining else .running }

omit [DecidableEq ι] in
/-- `run_later_loop` -/
def runLaterLoop (s : RunLater τ ι) : RunLater τ ι :=
  match s.thread with
  | .running => { s with thread := if s.shouldStop then .draining else .trying false .locking }
  | .draining => { s with thread := if s.jobs.isEmpty then .stopped else .trying true .locking }
  | .trying drain pc => s.tryOneJob drain pc
  | .stopped => s

/-- `~RunLater` -/
def destroy (addr : ι → Nat) (s : RunLater τ ι) : RunLater τ ι :=
  match s.dtor with
  | .alive => { s with shouldStop := true, dtor := .stopping }
  | .stopping => { s.push addr (0, none) with dtor := .joining }
  | .joining => { s with dtor := .returned }
  | .returned => s

/-- A step of the clock, of a call, of the thread or of the destructor. -/
inductive Op (τ ι : Type) where
  | tick (t : τ)
  | call (c : ι)
  | thread
  | destructor

/-- One step. -/
def effect (addr : ι → Nat) (sec : ι → τ) (s : RunLater τ ι) : Op τ ι → RunLater τ ι
  | .tick t => { s with clock := t }
  | .call c => s.runLater addr sec c
  | .thread => s.runLaterLoop
  | .destructor => s.destroy addr

omit [AddCommGroup τ] [DecidableEq ι] in
/-- The clock does not go back, who has returned takes no step, a push waits for the mutex and the
    destructor for the thread. -/
def Guard (s : RunLater τ ι) : Op τ ι → Prop
  | .tick t => s.clock ≤ t
  | .call c => s.dtor ≠ .returned ∧ s.call c ≠ .refused ∧ s.call c ≠ .returned ∧
      (s.call c = .noted → ¬ s.thread.Holds)
  | .thread => s.thread ≠ .stopped
  | .destructor => s.dtor ≠ .returned ∧ (s.dtor = .stopping → ¬ s.thread.Holds) ∧
      (s.dtor = .joining → s.thread = .stopped)

instance (s : RunLater τ ι) (op : Op τ ι) : Decidable (s.Guard op) := by
  cases op <;> unfold Guard <;> infer_instance

/-- A step of the system. -/
abbrev Next (addr : ι → Nat) (sec : ι → τ) : RunLater τ ι → Op τ ι → RunLater τ ι → Prop :=
  Guarded Guard (effect addr sec)

end RunLater

/-! ## The jobs -/

/-- The job at the top was called and is still there. -/
def RunLaterLoop.popping {τ ι : Type} : RunLaterLoop τ ι → Bool
  | .trying _ (.executed _) => true
  | _ => false

/-- What the thread knows to be at the top. -/
def RunLaterLoop.top {τ ι : Type} : RunLaterLoop τ ι → Option (Job τ ι)
  | .trying _ (.looked j _) | .trying _ (.executed j) => some j
  | _ => none

/-- The job of the call is in the queue. -/
def RunLaterCall.Accepted : RunLaterCall → Prop
  | .pushed | .returned => True
  | _ => False

instance : DecidablePred RunLaterCall.Accepted
  | .pushed | .returned => isTrue trivial
  | .called | .refused | .passed | .timed | .noted => isFalse id

/-- The thread is past the first loop. -/
def RunLaterLoop.Draining {τ ι : Type} : RunLaterLoop τ ι → Prop
  | .draining | .trying true _ | .stopped => True
  | _ => False

namespace RunLater

variable {τ ι : Type}

/-- What has not been called yet. -/
def pending (s : RunLater τ ι) : List (Job τ ι) := if s.thread.popping then s.jobs.tail else s.jobs

/-- The object as far as the jobs are concerned. -/
def agenda (s : RunLater τ ι) : Agenda τ (Option ι) := ⟨s.pending, s.executed⟩

theorem pending_of_not_popping {s : RunLater τ ι} (h : s.thread.popping = false) :
    s.pending = s.jobs := by
  rw [pending, h]
  rfl

theorem popping_of_not_holds {t : RunLaterLoop τ ι} (h : ¬ t.Holds) : t.popping = false := by
  rcases t with _ | _ | ⟨_, pc⟩ | _
  · rfl
  · rfl
  · cases pc with
    | executed j => exact absurd trivial h
    | _ => rfl
  · rfl

/-- Who knows what is at the top has the mutex. -/
theorem holds_of_top {t : RunLaterLoop τ ι} {j : Job τ ι} (h : t.top = some j) : t.Holds := by
  rcases t with _ | _ | ⟨_, pc⟩ | _
  · cases h
  · cases h
  · cases pc with
    | looked k now => trivial
    | executed k => trivial
    | _ => cases h
  · cases h

/-! ### The order of the queue -/

section Order

variable [LinearOrder τ] {addr : ι → Nat}

instance : Std.Total (Earlier (τ := τ) addr) where
  total a b := by
    rcases lt_trichotomy a.1 b.1 with hlt | heq | hgt
    · exact .inl (.inl hlt)
    · exact (le_total (a.2.elim 0 addr) (b.2.elim 0 addr)).imp (fun h => .inr ⟨heq, h⟩)
        fun h => .inr ⟨heq.symm, h⟩
    · exact .inr (.inl hgt)

instance : Std.Refl (Earlier (τ := τ) addr) where
  refl _ := .inr ⟨rfl, le_refl _⟩

instance : IsTrans (Job τ ι) (Earlier addr) where
  trans a b c hab hbc := by
    rcases hab with hab | ⟨hab, hptr⟩
    · rcases hbc with hbc | ⟨hbc, -⟩
      · exact .inl (hab.trans hbc)
      · exact .inl (hbc ▸ hab)
    · rcases hbc with hbc | ⟨hbc, hptr'⟩
      · exact .inl (hab ▸ hbc)
      · exact .inr ⟨hab.trans hbc, hptr.trans hptr'⟩

theorem Earlier.due_le {a b : Job τ ι} (h : Earlier addr a b) : a.1 ≤ b.1 := by
  rcases h with hlt | ⟨heq, -⟩
  · exact hlt.le
  · exact heq.le

end Order

/-! ### What a step can do -/

/-- A call goes on and keeps to itself. -/
theorem agenda_of_same {s s' : RunLater τ ι} (hjobs : s'.jobs = s.jobs)
    (hthread : s'.thread = s.thread) (hexecuted : s'.executed = s.executed) :
    s'.agenda = s.agenda := by
  rw [agenda, agenda, pending, pending, hjobs, hthread, hexecuted]

/-- The thread goes on and leaves the queue alone. -/
theorem agenda_goto (s : RunLater τ ι) {pc : RunLaterLoop τ ι}
    (hpc : pc.popping = s.thread.popping) : agenda { s with thread := pc } = s.agenda := by
  simp only [agenda, pending, hpc]

/-- A push, by somebody who has the mutex. -/
theorem agenda_push [LinearOrder τ] [DecidableEq ι] (addr : ι → Nat) {s : RunLater τ ι}
    (hholds : ¬ s.thread.Holds) (j : Job τ ι) :
    Agenda.Next (Earlier addr) s.agenda (.add j) (s.push addr j).agenda := by
  have hpop := popping_of_not_holds hholds
  have hbefore : s.pending = s.jobs := pending_of_not_popping hpop
  have hafter : (s.push addr j).pending = s.jobs.orderedInsert (Earlier addr) j :=
    pending_of_not_popping hpop
  refine ⟨trivial, ?_⟩
  rw [agenda, agenda, hbefore, hafter]
  rfl

/-- What the thread does, and what this does to the jobs. -/
inductive ThreadStep [LT τ] (s : RunLater τ ι) :
    Option (AgendaOp τ (Option ι)) → RunLater τ ι → Prop where
  /-- It goes on. -/
  | goto {pc : RunLaterLoop τ ι} (hlive : s.thread ≠ .stopped) (hold : s.thread.popping = false)
      (hnew : pc.popping = false) (htop : ∀ j, pc.top = some j → s.jobs.head? = some j)
      (hfresh : ∀ drain j now, pc = .trying drain (.looked j now) → now = s.clock)
      (hdraining : pc.Draining → s.thread.Draining ∨ s.shouldStop = true)
      (hstopped : pc = .stopped → s.jobs = []) : ThreadStep s none { s with thread := pc }
  /-- It pops the death pill. -/
  | pill {drain : Bool} {d now : τ} (hthread : s.thread = .trying drain (.looked (d, none) now))
      (hdue : d < now) :
      ThreadStep s (some (.drop (d, none)))
        { s with jobs := s.jobs.tail, thread := .trying drain .unlocking }
  /-- It calls a job that is due. -/
  | execute {drain : Bool} {d now : τ} {c : ι}
      (hthread : s.thread = .trying drain (.looked (d, some c) now)) (hdue : d < now) :
      ThreadStep s (some (.run (d, some c)))
        { s with executed := s.executed ++ [some c],
                 thread := .trying drain (.executed (d, some c)) }
  /-- It pops the job that it has called. -/
  | pop {drain : Bool} {j : Job τ ι} (hthread : s.thread = .trying drain (.executed j)) :
      ThreadStep s none { s with jobs := s.jobs.tail, thread := .trying drain .unlocking }

/-- It goes on, without having looked at the queue. -/
theorem ThreadStep.goto_blind [LT τ] {s : RunLater τ ι} {pc : RunLaterLoop τ ι}
    (hlive : s.thread ≠ .stopped) (hold : s.thread.popping = false) (hnew : pc.popping = false)
    (htop : pc.top = none) (hdraining : pc.Draining → s.thread.Draining ∨ s.shouldStop = true)
    (hstopped : pc ≠ .stopped) : ThreadStep s none { s with thread := pc } := by
  refine .goto hlive hold hnew (fun j hj => ?_) (fun drain j now heq => ?_) hdraining
    fun heq => absurd heq hstopped
  · rw [htop] at hj
    cases hj
  · rw [heq] at htop
    cases htop

section Steps

variable [AddCommGroup τ] [LinearOrder τ]

/-- What a step does to the jobs. -/
def move (s : RunLater τ ι) : Op τ ι → Option (AgendaOp τ (Option ι))
  | .tick _ => none
  | .call c => if s.call c = .noted then some (.add (s.later c, some c)) else none
  | .thread =>
    match s.thread with
    | .trying _ (.looked j now) =>
      if j.1 - now < 0 then if j.2.isNone then some (.drop j) else some (.run j) else none
    | _ => none
  | .destructor => if s.dtor = .stopping then some (.add (0, none)) else none

theorem tryOneJob_looking (s : RunLater τ ι) (drain : Bool) :
    s.tryOneJob drain .looking =
      { s with thread := .trying drain (s.jobs.head?.elim .waiting fun j => .looked j s.clock) } := by
  rw [tryOneJob]
  cases s.jobs <;> rfl

theorem threadStep_tryOneJob [IsOrderedAddMonoid τ] (s : RunLater τ ι) {drain : Bool}
    {pc : TryOneJob τ ι} (ht : s.thread = .trying drain pc) :
    s.ThreadStep (s.move .thread) (s.tryOneJob drain pc) := by
  have hlive : s.thread ≠ .stopped := by
    rw [ht]
    exact nofun
  -- which of the two loops the thread is in does not change in `try_one_job`
  have hdraining : ∀ pc', RunLaterLoop.Draining (.trying drain pc' : RunLaterLoop τ ι) →
      s.thread.Draining ∨ s.shouldStop = true := by
    intro pc' h
    rw [ht]
    cases drain with
    | true => exact .inl trivial
    | false => exact h.elim
  cases pc with
  | locking =>
    simp only [move, tryOneJob, ht]
    exact .goto_blind hlive (by rw [ht]; rfl) rfl rfl (hdraining _) nofun
  | looking =>
    rw [tryOneJob_looking]
    simp only [move, ht]
    cases hhead : s.jobs.head? with
    | none => exact .goto_blind hlive (by rw [ht]; rfl) rfl rfl (hdraining _) nofun
    | some j =>
      refine .goto hlive (by rw [ht]; rfl) rfl (fun k hk => ?_) (fun _ _ _ heq => ?_) (hdraining _)
        nofun
      · rw [hhead]
        exact hk
      · cases heq
        rfl
  | looked j now =>
    simp only [move, tryOneJob, ht, sub_neg]
    by_cases hdue : j.1 < now
    · obtain ⟨d, job⟩ := j
      rw [if_pos hdue, if_pos hdue]
      cases job with
      | none => exact .pill ht hdue
      | some c => exact .execute ht hdue
    · rw [if_neg hdue, if_neg hdue]
      exact .goto_blind hlive (by rw [ht]; rfl) rfl rfl (hdraining _) nofun
  | executed j =>
    simp only [move, tryOneJob, ht]
    exact .pop ht
  | waiting =>
    simp only [move, tryOneJob, ht]
    exact .goto_blind hlive (by rw [ht]; rfl) rfl rfl (hdraining _) nofun
  | unlocking =>
    simp only [move, tryOneJob, ht]
    cases drain with
    | true =>
      exact .goto_blind hlive (by rw [ht]; rfl) rfl rfl (fun _ => hdraining .locking trivial) nofun
    | false => exact .goto_blind hlive (by rw [ht]; rfl) rfl rfl False.elim nofun

/-- **What the thread can do.** -/
theorem threadStep [IsOrderedAddMonoid τ] (s : RunLater τ ι) (hlive : s.thread ≠ .stopped) :
    s.ThreadStep (s.move .thread) s.runLaterLoop := by
  cases ht : s.thread with
  | running =>
    simp only [move, runLaterLoop, ht]
    by_cases hstop : s.shouldStop = true
    · rw [if_pos hstop]
      exact .goto_blind hlive (by rw [ht]; rfl) rfl rfl (fun _ => .inr hstop) nofun
    · rw [if_neg hstop]
      exact .goto_blind hlive (by rw [ht]; rfl) rfl rfl False.elim nofun
  | draining =>
    have hdraining : s.thread.Draining := by
      rw [ht]
      trivial
    simp only [move, runLaterLoop, ht]
    cases hempty : s.jobs.isEmpty with
    | true =>
      refine .goto hlive (by rw [ht]; rfl) rfl nofun nofun (fun _ => .inl hdraining) fun _ => ?_
      exact List.isEmpty_iff.mp hempty
    | false => exact .goto_blind hlive (by rw [ht]; rfl) rfl rfl (fun _ => .inl hdraining) nofun
  | trying drain pc =>
    have heq : s.runLaterLoop = s.tryOneJob drain pc := by rw [runLaterLoop, ht]
    rw [heq]
    exact s.threadStep_tryOneJob ht
  | stopped => exact absurd ht hlive

/-- A call goes on, or it pushes its job. -/
theorem runLater_cases [DecidableEq ι] (addr : ι → Nat) (sec : ι → τ) (s : RunLater τ ι) (c : ι) :
    (∃ pc later latest,
      s.runLater addr sec c = { s with later := later, latest := latest }.callGoto c pc ∧
      (pc.Accepted ↔ (s.call c).Accepted) ∧ s.call c ≠ .noted ∧
      ∀ d, (s.call d).Accepted → later d = s.later d) ∨
    s.call c = .noted ∧
      s.runLater addr sec c = (s.push addr (s.later c, some c)).callGoto c .pushed := by
  have hstay : s = s.callGoto c (s.call c) := by
    rw [callGoto, Function.update_eq_self]
  cases hc : s.call c with
  | called =>
    left
    rw [runLater, hc]
    by_cases hstop : s.shouldStop = true
    · simp only [if_pos hstop]
      exact ⟨.refused, s.later, s.latest, rfl, Iff.rfl, nofun, fun _ _ => rfl⟩
    · simp only [if_neg hstop]
      exact ⟨.passed, s.later, s.latest, rfl, Iff.rfl, nofun, fun _ _ => rfl⟩
  | passed =>
    refine .inl ⟨.timed, _, s.latest, by rw [runLater, hc], Iff.rfl, nofun, fun d hd => ?_⟩
    -- `c` itself is not in the queue yet
    have hdc : d ≠ c := by
      rintro rfl
      rw [hc] at hd
      exact hd
    exact Function.update_of_ne hdc _ _
  | timed => exact .inl ⟨.noted, s.later, _, by rw [runLater, hc], Iff.rfl, nofun, fun _ _ => rfl⟩
  | noted => exact .inr ⟨rfl, by rw [runLater, hc]⟩
  | pushed =>
    exact .inl ⟨.returned, s.later, s.latest, by rw [runLater, hc], Iff.rfl, nofun, fun _ _ => rfl⟩
  | refused =>
    have hsame : s.runLater addr sec c = s := by rw [runLater, hc]
    rw [hc] at hstay
    exact .inl ⟨.refused, s.later, s.latest, hsame.trans hstay, Iff.rfl, nofun, fun _ _ => rfl⟩
  | returned =>
    have hsame : s.runLater addr sec c = s := by rw [runLater, hc]
    rw [hc] at hstay
    exact .inl ⟨.returned, s.later, s.latest, hsame.trans hstay, Iff.rfl, nofun, fun _ _ => rfl⟩

end Steps

end RunLater

/-! ## The invariant -/

namespace RunLater

variable {τ ι : Type} [AddCommGroup τ] [LinearOrder τ] [DecidableEq ι]

omit [AddCommGroup τ] in
/-- What the code keeps true of the queue, the thread and the death pill. -/
structure Inv (addr : ι → Nat) (s : RunLater τ ι) : Prop where
  ordered : s.agenda.Ordered (Earlier addr)
  amount : ∀ c, s.agenda.amount (some c) = if (s.call c).Accepted then 1 else 0
  top : ∀ j, s.thread.top = some j → s.jobs.head? = some j
  /-- The clock has gone on since the thread has looked at it. -/
  fresh : ∀ drain j now, s.thread = .trying drain (.looked j now) → now ≤ s.clock
  ran : ∀ drain j, s.thread = .trying drain (.executed j) → j.2 ∈ s.executed
  dues : ∀ d c, (d, some c) ∈ s.jobs → (s.call c).Accepted ∧ d = s.later c
  real : none ∉ s.executed
  alive : s.dtor = .alive → s.shouldStop = false
  draining : s.thread.Draining → s.shouldStop = true
  stopped : s.thread = .stopped → ∀ j ∈ s.jobs, s.late j.2 = true
  late : ∀ x, s.late x = true → s.thread = .stopped ∧ ∃ d, (d, x) ∈ s.jobs
  joined : s.dtor = .returned → s.thread = .stopped

theorem inv_init (addr : ι → Nat) (t₀ : τ) : (init t₀ : RunLater τ ι).Inv addr where
  ordered := .nil
  amount _ := rfl
  top _ h := nomatch h
  fresh _ _ _ h := nomatch h
  ran _ _ h := nomatch h
  dues _ _ h := nomatch h
  real h := nomatch h
  alive _ := rfl
  draining h := h.elim
  stopped h := nomatch h
  late _ h := nomatch h
  joined h := nomatch h

section Preserved

variable {addr : ι → Nat} {sec : ι → τ} {s : RunLater τ ι} (hI : s.Inv addr)

include hI

/-- **A step of the object** is a step of the agenda, or nothing to it. -/
theorem Inv.agenda_step [IsOrderedAddMonoid τ] {op : Op τ ι} (hguard : s.Guard op) :
    Stutter (Agenda.Next (Earlier addr)) s.agenda (s.move op) (s.effect addr sec op).agenda := by
  cases op with
  | tick t => rfl
  | call c =>
    obtain ⟨-, -, -, hholds⟩ := hguard
    rcases s.runLater_cases addr sec c with ⟨pc, later, latest, heq, -, hne, -⟩ | ⟨hc, heq⟩
    · simp only [effect, move, heq, if_neg hne]
      exact agenda_of_same rfl rfl rfl
    · simp only [effect, move, heq, if_pos hc]
      exact agenda_push addr (hholds hc) (s.later c, some c)
  | thread =>
    show Stutter _ _ _ s.runLaterLoop.agenda
    have hstep := s.threadStep hguard
    generalize s.runLaterLoop = s', s.move .thread = m at hstep ⊢
    cases hstep with
    | goto _ hold hnew => exact agenda_goto s (hnew.trans hold.symm)
    | @pill drain d now ht =>
      have hpending : s.pending = s.jobs := pending_of_not_popping (by rw [ht]; rfl)
      have hfirst := hI.top (d, none) (by rw [ht]; rfl)
      refine ⟨?_, ?_⟩
      · show s.pending.head? = _
        rw [hpending, hfirst]
      · rw [agenda, agenda, hpending]
        rfl
    | @execute drain d now c ht =>
      have hpending : s.pending = s.jobs := pending_of_not_popping (by rw [ht]; rfl)
      have hfirst := hI.top (d, some c) (by rw [ht]; rfl)
      refine ⟨?_, ?_⟩
      · show s.pending.head? = _
        rw [hpending, hfirst]
      · rw [agenda, agenda, hpending]
        rfl
    | pop ht =>
      show agenda _ = _
      rw [agenda, agenda, pending, pending, ht]
      rfl
  | destructor =>
    obtain ⟨-, hholds, -⟩ := hguard
    cases hd : s.dtor with
    | alive =>
      simp only [effect, move, destroy, hd]
      rfl
    | stopping =>
      simp only [effect, move, destroy, hd]
      exact agenda_push addr (hholds hd) (0, none)
    | joining =>
      simp only [effect, move, destroy, hd]
      rfl
    | returned =>
      simp only [effect, move, destroy, hd]
      rfl

omit [AddCommGroup τ] in
/-- A push, by somebody who has the mutex and goes on to `call` and `dtor`. -/
theorem Inv.push {j : Job τ ι} (hholds : ¬ s.thread.Holds) {call : ι → RunLaterCall}
    {dtor : DestroyRunLater}
    (hcall : ∀ c, (if (call c).Accepted then 1 else 0) =
      (if (s.call c).Accepted then 1 else 0) + [j.2].count (some c))
    (hdue : ∀ c, j.2 = some c → j.1 = s.later c)
    (halive : dtor = .alive → s.shouldStop = false) (hjoined : dtor = .returned → s.thread = .stopped) :
    Inv addr { s.push addr j with call := call, dtor := dtor } := by
  have hstep := agenda_push addr hholds j
  refine ⟨hI.ordered.step hstep, fun c => ?_, fun k hk => ?_, hI.fresh, hI.ran, fun d c hmem => ?_,
    hI.real, halive, hI.draining, fun hstop k hk => ?_, fun x hx => ?_, hjoined⟩
  · have hamount := Agenda.amount_step hstep (some c)
    show (s.push addr j).agenda.amount (some c) = if (call c).Accepted then 1 else 0
    rw [hcall, ← hI.amount c]
    exact hamount
  · exact absurd (holds_of_top hk) hholds
  · have haccepted := hcall c
    rcases (List.mem_orderedInsert (Earlier addr)).mp hmem with heq | hold
    · obtain rfl : (d, some c) = j := heq
      refine ⟨?_, hdue c rfl⟩
      by_contra hnot
      rw [if_neg hnot, List.count_singleton_self] at haccepted
      omega
    · obtain ⟨hc, hd⟩ := hI.dues d c hold
      refine ⟨?_, hd⟩
      by_contra hnot
      rw [if_neg hnot, if_pos hc] at haccepted
      omega
  · have hlate : ∀ x, Function.update s.late j.2 (decide (s.thread = .stopped)) x = true ↔
        x = j.2 ∨ s.late x = true := by
      intro x
      rw [Function.update_apply, decide_eq_true (p := s.thread = .stopped) hstop]
      by_cases hx : x = j.2 <;> simp [hx]
    refine (hlate k.2).mpr ?_
    rcases (List.mem_orderedInsert (Earlier addr)).mp hk with heq | hold
    · exact .inl (congrArg Prod.snd heq)
    · exact .inr (hI.stopped hstop k hold)
  · have hx : Function.update s.late j.2 (decide (s.thread = .stopped)) x = true := hx
    by_cases hxj : x = j.2
    · rw [hxj, Function.update_self] at hx
      refine ⟨of_decide_eq_true hx, j.1, ?_⟩
      exact (List.mem_orderedInsert (Earlier addr)).mpr (.inl (by rw [hxj]))
    · rw [Function.update_of_ne hxj] at hx
      obtain ⟨hstop, d, hd⟩ := hI.late x hx
      exact ⟨hstop, d, (List.mem_orderedInsert (Earlier addr)).mpr (.inr hd)⟩

theorem Inv.runLater {c : ι} (hholds : s.call c = .noted → ¬ s.thread.Holds) :
    (s.runLater addr sec c).Inv addr := by
  rcases s.runLater_cases addr sec c with ⟨pc, later, latest, heq, hpc, -, hlater⟩ | ⟨hc, heq⟩
  · rw [heq]
    have haccepted : ∀ d, (Function.update s.call c pc d).Accepted ↔ (s.call d).Accepted := by
      intro d
      by_cases hdc : d = c
      · rw [hdc, Function.update_self]
        exact hpc
      · rw [Function.update_of_ne hdc]
    refine { hI with amount := fun d => ?_, dues := fun d e hmem => ?_ }
    · refine (hI.amount d).trans ?_
      exact if_congr (haccepted d).symm rfl rfl
    · obtain ⟨he, hd⟩ := hI.dues d e hmem
      exact ⟨(haccepted e).mpr he, hd.trans (hlater e he).symm⟩
  · rw [heq]
    refine hI.push (hholds hc) (fun d => ?_) (fun d hd => ?_) hI.alive hI.joined
    · by_cases hdc : d = c
      · subst hdc
        rw [Function.update_self, hc, List.count_singleton_self]
        rfl
      · rw [Function.update_of_ne hdc, List.count_eq_zero.mpr]
        · rfl
        · simp [hdc]
    · cases hd
      rfl

omit [AddCommGroup τ] in
/-- The thread pops the top of the queue. -/
theorem Inv.pop {drain : Bool} {pc : TryOneJob τ ι} (ht : s.thread = .trying drain pc)
    (hordered : (agenda { s with jobs := s.jobs.tail, thread := .trying drain .unlocking }).Ordered
      (Earlier addr))
    (hamount : ∀ c, (agenda { s with jobs := s.jobs.tail, thread := .trying drain .unlocking }).amount
      (some c) = s.agenda.amount (some c)) :
    Inv addr { s with jobs := s.jobs.tail, thread := .trying drain .unlocking } := by
  have hlive : s.thread ≠ .stopped := by
    rw [ht]
    exact nofun
  refine ⟨hordered, fun c => (hamount c).trans (hI.amount c), nofun, nofun, nofun,
    fun d c hmem => hI.dues d c (List.mem_of_mem_tail hmem), hI.real, hI.alive, fun h => ?_, nofun,
    fun x hx => absurd (hI.late x hx).1 hlive, fun hd => absurd (hI.joined hd) hlive⟩
  apply hI.draining
  rw [ht]
  cases drain with
  | true => trivial
  | false => exact h.elim

theorem Inv.runLaterLoop [IsOrderedAddMonoid τ] (hlive : s.thread ≠ .stopped) :
    s.runLaterLoop.Inv addr := by
  have hguard : s.Guard .thread := hlive
  have hagenda : Stutter (Agenda.Next (Earlier addr)) s.agenda (s.move .thread)
      (s.effect addr (fun _ => 0) .thread).agenda := hI.agenda_step hguard
  have hstep := s.threadStep hlive
  have hordered : s.runLaterLoop.agenda.Ordered (Earlier addr) :=
    hagenda.preserves (fun _ _ _ h hnext => h.step hnext) hI.ordered
  have hamount : ∀ c, (∀ o, s.move .thread = some o → Agenda.adds (some c) o = 0 ∧
      Agenda.drops (some c) o = 0) →
      s.runLaterLoop.agenda.amount (some c) = s.agenda.amount (some c) :=
    fun c => Agenda.amount_of_stutter hagenda (some c)
  clear hagenda
  generalize s.runLaterLoop = s', s.move .thread = m at *
  cases hstep with
  | @goto pc _ _ hnew htop hfresh hdraining hstopped =>
    refine ⟨hordered, fun c => (hamount c nofun).trans (hI.amount c), htop, fun drain j now heq => ?_,
      fun drain j heq => ?_, hI.dues, hI.real, hI.alive, fun h => ?_, fun heq j hj => ?_,
      fun x hx => absurd (hI.late x hx).1 hlive, fun hd => absurd (hI.joined hd) hlive⟩
    · exact (hfresh drain j now heq).le
    · have heq : pc = .trying drain (.executed j) := heq
      rw [heq] at hnew
      cases hnew
    · exact (hdraining h).elim hI.draining id
    · have hjobs := hstopped heq
      change j ∈ s.jobs at hj
      rw [hjobs] at hj
      cases hj
  | @pill drain d now ht =>
    refine hI.pop ht hordered fun c => hamount c fun o ho => ?_
    obtain rfl : AgendaOp.drop (d, none) = o := Option.some.inj ho
    exact ⟨rfl, rfl⟩
  | @execute drain d now c ht hdue =>
    have hfirst := hI.top (d, some c) (by rw [ht]; rfl)
    refine ⟨hordered, fun e => ?_, fun j hj => ?_, nofun, fun drain' j heq => ?_, hI.dues, ?_,
      hI.alive, fun h => ?_, nofun, fun x hx => absurd (hI.late x hx).1 hlive,
      fun hd => absurd (hI.joined hd) hlive⟩
    · refine (hamount e fun o ho => ?_).trans (hI.amount e)
      obtain rfl : AgendaOp.run (d, some c) = o := Option.some.inj ho
      exact ⟨rfl, rfl⟩
    · obtain rfl : (d, some c) = j := Option.some.inj hj
      exact hfirst
    · cases heq
      exact List.mem_append_right _ (.head _)
    · show none ∉ s.executed ++ [some c]
      simpa using hI.real
    · apply hI.draining
      rw [ht]
      cases drain with
      | true => trivial
      | false => exact h.elim
  | @pop drain j ht => exact hI.pop ht hordered fun c => hamount c nofun

theorem Inv.destroy (hguard : s.Guard .destructor) : (s.destroy addr).Inv addr := by
  obtain ⟨-, hholds, hjoin⟩ := hguard
  unfold RunLater.destroy
  cases hd : s.dtor with
  | alive => exact { hI with alive := nofun, draining := fun _ => rfl, joined := nofun }
  | stopping =>
    exact hI.push (hholds hd) (fun _ => rfl) nofun nofun nofun
  | joining => exact { hI with alive := nofun, joined := fun _ => hjoin hd }
  | returned => exact hI

/-- **One step** preserves the invariant. -/
theorem Inv.step [IsOrderedAddMonoid τ] {op : Op τ ι} (hguard : s.Guard op) :
    (s.effect addr sec op).Inv addr := by
  cases op with
  | tick t =>
    refine { hI with fresh := fun drain j now ht => ?_ }
    exact (hI.fresh drain j now ht).trans hguard
  | call c => exact hI.runLater hguard.2.2.2
  | thread => exact hI.runLaterLoop hguard
  | destructor => exact hI.destroy hguard

end Preserved

section Runs

variable [IsOrderedAddMonoid τ] {addr : ι → Nat} {sec : ι → τ}

/-- The invariant holds in every state of every run. -/
theorem inv_of_run {t₀ : τ} {ops : List (Op τ ι)} {s : RunLater τ ι}
    (hrun : Steps (Next addr sec) (init t₀) ops s) : s.Inv addr :=
  Steps.guarded_invariant (P := Inv addr) (fun _ _ hI hguard => hI.step hguard) hrun
    (inv_init addr t₀)

omit [AddCommGroup τ] [IsOrderedAddMonoid τ] in
/-- No job is executed twice. -/
theorem Inv.executed_le_one {s : RunLater τ ι} (hI : s.Inv addr) (c : ι) :
    s.executed.count (some c) ≤ 1 := by
  have hle : s.executed.count (some c) ≤ s.agenda.amount (some c) := Nat.le_add_left _ _
  rw [hI.amount] at hle
  refine hle.trans ?_
  split
  · exact le_refl 1
  · exact Nat.zero_le 1

/-- **When a job is executed**, it is due and no other job in the queue is due before it. -/
theorem Inv.executed_step {s : RunLater τ ι} (hI : s.Inv addr) {op : Op τ ι} (hguard : s.Guard op) :
    (s.effect addr sec op).executed = s.executed ∨
    ∃ c, (s.effect addr sec op).executed = s.executed ++ [some c] ∧ (s.later c, some c) ∈ s.jobs ∧
      s.later c < s.clock ∧ ∀ j ∈ s.jobs, s.later c ≤ j.1 := by
  cases op with
  | tick t => exact .inl rfl
  | call c =>
    left
    show (s.runLater addr sec c).executed = s.executed
    -- a call executes nothing, it only adds to the queue
    rcases s.runLater_cases addr sec c with ⟨pc, later, latest, heq, -⟩ | ⟨-, heq⟩
    · rw [heq]
      rfl
    · rw [heq]
      rfl
  | thread =>
    show s.runLaterLoop.executed = s.executed ∨
      ∃ c, s.runLaterLoop.executed = s.executed ++ [some c] ∧ _
    have hstep := s.threadStep hguard
    generalize s.runLaterLoop = s', s.move .thread = m at *
    cases hstep with
    | goto => exact .inl rfl
    | pill => exact .inl rfl
    | pop => exact .inl rfl
    | @execute drain d now c ht hdue =>
      -- the job on top of the queue is due
      have hfirst := hI.top (d, some c) (by rw [ht]; rfl)
      have hmem : (d, some c) ∈ s.jobs := List.mem_of_mem_head? hfirst
      obtain ⟨-, hd⟩ := hI.dues d c hmem
      have hpending : s.pending = s.jobs := pending_of_not_popping (by rw [ht]; rfl)
      have hleast := hI.ordered.first (e := (d, some c)) (by rw [agenda, hpending]; exact hfirst)
      refine .inr ⟨c, rfl, hd ▸ hmem, hd ▸ hdue.trans_le (hI.fresh drain _ now ht), fun j hj => ?_⟩
      rw [← hd]
      exact (hleast j (by rw [agenda, hpending]; exact hj)).due_le
  | destructor =>
    -- nor does the destructor
    left
    show (s.destroy addr).executed = s.executed
    unfold RunLater.destroy
    cases s.dtor <;> rfl

/-- **No job is discarded**: what leaves the queue was executed, unless it is the death pill. -/
theorem Inv.kept_step {s : RunLater τ ι} (hI : s.Inv addr) {op : Op τ ι} (hguard : s.Guard op)
    {d : τ} {c : ι} (hmem : (d, some c) ∈ s.jobs) :
    (d, some c) ∈ (s.effect addr sec op).jobs ∨ some c ∈ s.executed := by
  have hpush : ∀ j, (d, some c) ∈ (s.push addr j).jobs := fun j =>
    (List.mem_orderedInsert (Earlier addr)).mpr (.inr hmem)
  -- only the top of the queue is popped
  have htail : ∀ j, s.jobs.head? = some j → (d, some c) ∈ s.jobs.tail ∨ (d, some c) = j := by
    intro j hfirst
    rw [List.eq_cons_of_mem_head? hfirst] at hmem
    exact (List.mem_cons.mp hmem).symm
  cases op with
  | tick t => exact .inl hmem
  | call e =>
    left
    show (d, some c) ∈ (s.runLater addr sec e).jobs
    -- a call only adds to the queue
    rcases s.runLater_cases addr sec e with ⟨pc, later, latest, heq, -⟩ | ⟨-, heq⟩
    · rw [heq]
      exact hmem
    · rw [heq]
      exact hpush _
  | thread =>
    show (d, some c) ∈ s.runLaterLoop.jobs ∨ some c ∈ s.executed
    have hstep := s.threadStep hguard
    generalize s.runLaterLoop = s', s.move .thread = m at *
    cases hstep with
    | goto => exact .inl hmem
    | execute => exact .inl hmem
    | pill ht =>
      -- the top is the death pill, and so another entry
      refine .inl ((htail _ (hI.top _ (by rw [ht]; rfl))).resolve_right ?_)
      intro heq
      cases heq
    | pop ht =>
      -- the top has been executed before it is popped
      refine (htail _ (hI.top _ (by rw [ht]; rfl))).imp id fun heq => ?_
      have hran := hI.ran _ _ ht
      rwa [← heq] at hran
  | destructor =>
    left
    show (d, some c) ∈ (s.destroy addr).jobs
    unfold RunLater.destroy
    -- the destructor only adds the death pill
    cases s.dtor with
    | stopping => exact hpush _
    | _ => exact hmem

omit [DecidableEq ι] in
/-- The thread does not touch the clock, the calls, the destructor and what is pushed late. -/
theorem runLaterLoop_frame {s : RunLater τ ι} (hlive : s.thread ≠ .stopped) :
    s.runLaterLoop.call = s.call ∧ s.runLaterLoop.late = s.late ∧ s.runLaterLoop.dtor = s.dtor ∧
      s.runLaterLoop.later = s.later ∧ s.runLaterLoop.clock = s.clock := by
  have hstep := s.threadStep hlive
  generalize s.runLaterLoop = s', s.move .thread = m at *
  cases hstep <;> exact ⟨rfl, rfl, rfl, rfl, rfl⟩

/-- A job that was pushed in time stays one. -/
theorem accepted_step {s : RunLater τ ι} {c : ι}
    (hc : (s.call c).Accepted ∧ s.late (some c) = false) {op : Op τ ι} (hguard : s.Guard op) :
    ((s.effect addr sec op).call c).Accepted ∧ (s.effect addr sec op).late (some c) = false := by
  cases op with
  | tick t => exact hc
  | call d =>
    show ((s.runLater addr sec d).call c).Accepted ∧ (s.runLater addr sec d).late (some c) = false
    rcases s.runLater_cases addr sec d with ⟨pc, later, latest, heq, hpc, -⟩ | ⟨hd, heq⟩
    · -- the call goes on without pushing
      rw [heq]
      refine ⟨?_, hc.2⟩
      show (Function.update s.call d pc c).Accepted
      by_cases hcd : c = d
      · subst hcd
        rw [Function.update_self]
        exact hpc.mpr hc.1
      · rw [Function.update_of_ne hcd]
        exact hc.1
    · -- it pushes, and is the call of another job
      have hcd : c ≠ d := by
        rintro rfl
        rw [hd] at hc
        exact hc.1
      rw [heq]
      show (Function.update s.call d .pushed c).Accepted ∧
        Function.update s.late (some d) (decide (s.thread = .stopped)) (some c) = false
      rw [Function.update_of_ne hcd, Function.update_of_ne fun h => hcd (Option.some.inj h)]
      exact hc
  | thread =>
    -- the thread changes no call
    obtain ⟨hcall, hlate, -⟩ := runLaterLoop_frame hguard
    show (s.runLaterLoop.call c).Accepted ∧ s.runLaterLoop.late (some c) = false
    rwa [hcall, hlate]
  | destructor =>
    show ((s.destroy addr).call c).Accepted ∧ (s.destroy addr).late (some c) = false
    unfold RunLater.destroy
    cases s.dtor with
    | stopping =>
      -- the death pill has a note of its own
      refine ⟨hc.1, ?_⟩
      show Function.update s.late none (decide (s.thread = .stopped)) (some c) = false
      rw [Function.update_of_ne (by simp)]
      exact hc.2
    | _ => exact hc

omit [AddCommGroup τ] [IsOrderedAddMonoid τ] in
/-- When the destructor has returned, a job that was pushed in time is executed. -/
theorem Inv.executed_of_returned {s : RunLater τ ι} (hI : s.Inv addr) (hd : s.dtor = .returned)
    {c : ι} (hc : (s.call c).Accepted ∧ s.late (some c) = false) :
    s.executed.count (some c) = 1 := by
  have hstopped := hI.joined hd
  have hpending : s.pending = s.jobs := pending_of_not_popping (by rw [hstopped]; rfl)
  have hgone : ∀ k, (k, some c) ∉ s.agenda.entries := by
    intro k hmem
    rw [agenda, hpending] at hmem
    have hlate := hI.stopped hstopped _ hmem
    rw [hc.2] at hlate
    cases hlate
  have hamount := Agenda.amount_eq_done hgone
  rw [hI.amount, if_pos hc.1] at hamount
  exact hamount.symm

/-- A job that was accepted before the destructor was entered is executed when it has returned. -/
theorem executed_of_returned {t₀ : τ} {s s' : RunLater τ ι} {ops ops' : List (Op τ ι)}
    (hrun : Steps (Next addr sec) (init t₀) ops s) {c : ι} (hc : s.call c = .returned)
    (halive : s.dtor = .alive) (hrun' : Steps (Next addr sec) s ops' s')
    (hd : s'.dtor = .returned) : s'.executed.count (some c) = 1 := by
  have hI := inv_of_run hrun
  have hintime : (s.call c).Accepted ∧ s.late (some c) = false := by
    refine ⟨by rw [hc]; trivial, ?_⟩
    by_contra hlate
    -- the thread stops only when it is told to
    have hstop := hI.draining (by rw [(hI.late _ (eq_true_of_ne_false hlate)).1]; trivial)
    rw [hI.alive halive] at hstop
    cases hstop
  have hkept : (s'.call c).Accepted ∧ s'.late (some c) = false :=
    Steps.guarded_invariant (P := fun s => (s.call c).Accepted ∧ s.late (some c) = false)
      (fun _ _ h hguard => accepted_step h hguard) hrun' hintime
  exact (inv_of_run (hrun.append hrun')).executed_of_returned hd hkept

/-- Once the death pill is pushed, nothing says again whether it was pushed in time. -/
theorem late_pill_step {s : RunLater τ ι} {b : Bool}
    (hs : s.late none = b ∧ (s.dtor = .joining ∨ s.dtor = .returned)) {op : Op τ ι}
    (hguard : s.Guard op) : (s.effect addr sec op).late none = b ∧
      ((s.effect addr sec op).dtor = .joining ∨ (s.effect addr sec op).dtor = .returned) := by
  cases op with
  | tick t => exact hs
  | call c =>
    show (s.runLater addr sec c).late none = b ∧ _
    rcases s.runLater_cases addr sec c with ⟨pc, later, latest, heq, -⟩ | ⟨-, heq⟩
    · -- a job has its own note
      rw [effect, heq]
      exact hs
    · rw [effect, heq]
      refine ⟨?_, hs.2⟩
      show Function.update s.late (some c) (decide (s.thread = .stopped)) none = b
      rw [Function.update_of_ne (by simp)]
      exact hs.1
  | thread =>
    -- the thread changes no note
    obtain ⟨-, hlate, hdtor, -⟩ := runLaterLoop_frame hguard
    show s.runLaterLoop.late none = b ∧ (s.runLaterLoop.dtor = .joining ∨ _)
    rw [hlate, effect, hdtor]
    exact hs
  | destructor =>
    show (s.destroy addr).late none = b ∧
      ((s.destroy addr).dtor = .joining ∨ (s.destroy addr).dtor = .returned)
    unfold RunLater.destroy
    rcases hs with ⟨hb, hd | hd⟩
    · -- the death pill is not pushed a second time
      rw [hd]
      exact ⟨hb, .inr rfl⟩
    · rw [hd]
      exact ⟨hb, .inr hd⟩

/-- **The death pill** is left in the queue if and only if the thread had stopped when it was
    pushed. -/
theorem pill_left_iff {t₀ : τ} {s s' : RunLater τ ι} {ops ops' : List (Op τ ι)}
    (hrun : Steps (Next addr sec) (init t₀) ops s) (hd : s.dtor = .stopping)
    (hguard : s.Guard .destructor) (hrun' : Steps (Next addr sec) (s.destroy addr) ops' s')
    (hd' : s'.dtor = .returned) : (∃ d, (d, none) ∈ s'.jobs) ↔ s.thread = .stopped := by
  -- what the push has noted is kept
  have hpush : (s.destroy addr).late none = decide (s.thread = .stopped) ∧
      ((s.destroy addr).dtor = .joining ∨ (s.destroy addr).dtor = .returned) := by
    rw [RunLater.destroy, hd]
    refine ⟨?_, .inl rfl⟩
    show Function.update s.late none (decide (s.thread = .stopped)) none = _
    rw [Function.update_self]
  obtain ⟨hlate, -⟩ := Steps.guarded_invariant
    (P := fun x => x.late none = decide (s.thread = .stopped) ∧
      (x.dtor = .joining ∨ x.dtor = .returned))
    (fun _ _ h hguard => late_pill_step h hguard) hrun' hpush
  have hI := inv_of_run (hrun.append (.cons ⟨hguard, rfl⟩ hrun'))
  constructor
  · -- a pill that is left was pushed too late
    rintro ⟨d, hmem⟩
    have htrue := hI.stopped (hI.joined hd') (d, none) hmem
    exact of_decide_eq_true (hlate.symm.trans htrue)
  · -- and a late one is left
    intro hstopped
    exact (hI.late none (hlate.trans (decide_eq_true hstopped))).2

/-! ### The delay -/

omit [AddCommGroup τ] [LinearOrder τ] [DecidableEq ι] [IsOrderedAddMonoid τ] in
/-- A call that began at the time `t` or later: `later` is as far behind `t` as it has asked for, and
    so is the clock when the job has been executed. -/
structure Delayed [Add τ] [Zero τ] [Max τ] [LE τ] [LT τ] (sec : ι → τ) (t : τ) (c : ι)
    (s : RunLater τ ι) : Prop where
  before : s.call c = .called ∨ s.call c = .passed → t ≤ s.clock
  after : s.call c ≠ .called → s.call c ≠ .passed → s.call c ≠ .refused →
    t + max (sec c) 0 ≤ s.later c
  executed : some c ∈ s.executed → t + max (sec c) 0 < s.clock

omit [IsOrderedAddMonoid τ] in
/-- A call keeps to its own variables. -/
theorem runLater_other {s : RunLater τ ι} {c d : ι} (hdc : c ≠ d) :
    (s.runLater addr sec d).call c = s.call c ∧ (s.runLater addr sec d).later c = s.later c := by
  unfold runLater
  cases s.call d with
  | called =>
    simp only
    split
    · exact ⟨Function.update_of_ne hdc _ _, rfl⟩
    · exact ⟨Function.update_of_ne hdc _ _, rfl⟩
  | passed => exact ⟨Function.update_of_ne hdc _ _, Function.update_of_ne hdc _ _⟩
  | refused => exact ⟨rfl, rfl⟩
  | returned => exact ⟨rfl, rfl⟩
  | _ => exact ⟨Function.update_of_ne hdc _ _, rfl⟩

omit [IsOrderedAddMonoid τ] in
/-- A call goes on. -/
theorem Delayed.goto {s : RunLater τ ι} {t : τ} {c : ι} (hs : s.Delayed sec t c) {pc : RunLaterCall}
    {later : ι → τ} {latest : τ} (hbefore : pc = .called ∨ pc = .passed → t ≤ s.clock)
    (hafter : pc ≠ .called → pc ≠ .passed → pc ≠ .refused → t + max (sec c) 0 ≤ later c) :
    Delayed sec t c ({ s with later := later, latest := latest }.callGoto c pc) := by
  have hcall : Function.update s.call c pc c = pc := Function.update_self c pc s.call
  refine ⟨fun h => hbefore ?_, fun h₁ h₂ h₃ => hafter ?_ ?_ ?_, hs.executed⟩
  · exact h.imp hcall.symm.trans hcall.symm.trans
  · exact fun h => h₁ (hcall.trans h)
  · exact fun h => h₂ (hcall.trans h)
  · exact fun h => h₃ (hcall.trans h)

/-- What a call does to its own variables. -/
theorem Delayed.runLater {s : RunLater τ ι} {t : τ} {c : ι} (hs : s.Delayed sec t c) :
    (s.runLater addr sec c).Delayed sec t c := by
  have hafter := hs.after
  cases hc : s.call c with
  | called =>
    rw [RunLater.runLater, hc]
    by_cases hstop : s.shouldStop = true
    · -- the destructor has been entered
      simp only [if_pos hstop]
      exact hs.goto nofun fun _ _ h => absurd rfl h
    · -- it passes the test of `should_stop_`
      simp only [if_neg hstop]
      exact hs.goto (fun _ => hs.before (.inl hc)) fun _ h => absurd rfl h
  | passed =>
    rw [RunLater.runLater, hc]
    refine hs.goto nofun fun _ _ _ => ?_
    -- the time is taken after the call has begun
    have hclock := hs.before (.inr hc)
    rw [Function.update_self]
    by_cases hsec : 0 < sec c
    · rw [if_pos hsec, max_eq_left hsec.le]
      exact add_le_add_left hclock _
    · rw [if_neg hsec, max_eq_right (not_lt.mp hsec), add_zero]
      exact hclock
  | timed =>
    -- `later_time` is not computed again
    rw [hc] at hafter
    rw [RunLater.runLater, hc]
    exact hs.goto nofun fun _ _ _ => hafter nofun nofun nofun
  | noted =>
    rw [hc] at hafter
    rw [RunLater.runLater, hc]
    have hpushed : (s.push addr (s.later c, some c)).Delayed sec t c :=
      ⟨hs.before, hs.after, hs.executed⟩
    exact hpushed.goto nofun fun _ _ _ => hafter nofun nofun nofun
  | pushed =>
    rw [hc] at hafter
    rw [RunLater.runLater, hc]
    exact hs.goto nofun fun _ _ _ => hafter nofun nofun nofun
  | refused =>
    rw [RunLater.runLater, hc]
    exact hs
  | returned =>
    rw [RunLater.runLater, hc]
    exact hs

theorem Delayed.step {s : RunLater τ ι} (hI : s.Inv addr) {t : τ} {c : ι}
    (hs : s.Delayed sec t c) {op : Op τ ι} (hguard : s.Guard op) :
    (s.effect addr sec op).Delayed sec t c := by
  have hexecuted : some c ∈ (s.effect addr sec op).executed →
      t + max (sec c) 0 < s.clock := by
    intro hmem
    rcases hI.executed_step hguard with heq | ⟨d, heq, hjob, hdue, -⟩
    · rw [heq] at hmem
      -- the job was executed before
      exact hs.executed hmem
    · rw [heq] at hmem
      rcases List.mem_append.mp hmem with hold | hnew
      · exact hs.executed hold
      · -- the job is executed now; it was in the queue, so its call has computed `later`
        obtain rfl : c = d := Option.some.inj (List.mem_singleton.mp hnew)
        obtain ⟨haccepted, -⟩ := hI.dues _ _ hjob
        refine (hs.after ?_ ?_ ?_).trans_lt hdue <;>
        · intro hc
          rw [hc] at haccepted
          exact haccepted
  have hsame : ∀ s' : RunLater τ ι, s'.call c = s.call c → s'.later c = s.later c →
      s'.clock = s.clock → (some c ∈ s'.executed → t + max (sec c) 0 < s.clock) →
      s'.Delayed sec t c := by
    intro s' hcall hlater hclock hexecuted
    refine ⟨?_, ?_, ?_⟩
    · -- the same for the three parts
      rw [hcall, hclock]
      exact hs.before
    · rw [hcall, hlater]
      exact hs.after
    · rw [hclock]
      exact hexecuted
  cases op with
  | tick u =>
    -- time goes on
    exact ⟨fun h => (hs.before h).trans hguard, hs.after, fun h => (hexecuted h).trans_le hguard⟩
  | call d =>
    by_cases hcd : c = d
    · -- a step of this call
      subst hcd
      exact hs.runLater
    · -- a step of another one
      obtain ⟨hcall, hlater⟩ : (s.runLater addr sec d).call c = s.call c ∧
          (s.runLater addr sec d).later c = s.later c := runLater_other hcd
      refine hsame _ hcall hlater ?_ hexecuted
      show (s.runLater addr sec d).clock = s.clock
      rcases s.runLater_cases addr sec d with ⟨pc, later, latest, heq, -⟩ | ⟨-, heq⟩
      · rw [heq]
        rfl
      · rw [heq]
        rfl
  | thread =>
    obtain ⟨hcall, -, -, hlater, hclock⟩ := runLaterLoop_frame hguard
    exact hsame _ (congrFun hcall c) (congrFun hlater c) hclock hexecuted
  | destructor =>
    -- the destructor changes no call
    have hframe : (s.destroy addr).call = s.call ∧ (s.destroy addr).later = s.later ∧
        (s.destroy addr).clock = s.clock := by
      unfold RunLater.destroy
      cases s.dtor <;> exact ⟨rfl, rfl, rfl⟩
    obtain ⟨hcall, hlater, hclock⟩ := hframe
    exact hsame _ (congrFun hcall c) (congrFun hlater c) hclock hexecuted

/-- **Never early**: a job is executed when more time has passed since its call began than the call
    has asked for. -/
theorem delay_passed {t₀ : τ} {s s' : RunLater τ ι} {ops ops' : List (Op τ ι)}
    (hrun : Steps (Next addr sec) (init t₀) ops s) {c : ι} (hc : s.call c = .called)
    (hrun' : Steps (Next addr sec) s ops' s') (hexecuted : some c ∈ s'.executed) :
    s.clock + max (sec c) 0 < s'.clock := by
  have hI := inv_of_run hrun
  -- a call that has not begun has put nothing into the queue
  have hnone : some c ∉ s.executed := by
    have hamount := hI.amount c
    rw [hc] at hamount
    have hcount : s.executed.count (some c) = 0 := by
      have hle : s.executed.count (some c) ≤ s.agenda.amount (some c) := Nat.le_add_left _ _
      rw [hamount] at hle
      exact Nat.le_zero.mp hle
    exact List.count_eq_zero.mp hcount
  have hbegin : s.Delayed sec s.clock c :=
    ⟨fun _ => le_refl _, fun h => absurd hc h, fun h => absurd h hnone⟩
  obtain ⟨-, hdelayed⟩ := Steps.guarded_invariant
    (P := fun x => x.Inv addr ∧ x.Delayed sec s.clock c)
    (fun _ _ h hguard => ⟨h.1.step hguard, h.2.step h.1 hguard⟩) hrun' ⟨hI, hbegin⟩
  exact hdelayed.executed hexecuted

end Runs

end RunLater

/-- **Run later**: in every run, whatever the delays of the calls, where their jobs are allocated and
    how the waits of the thread end, no job is executed twice and no null pointer is called; a job
    is executed when it is due and before all jobs in the queue that are due later, and not before
    the delay is over that its call has asked for; nothing leaves the queue but the death pill and
    what was executed; a job for which `run_later` has returned `0` when the destructor has not been
    entered is executed once when it has returned; and the death pill is left in the queue if and
    only if the thread had stopped when the destructor pushed it. -/
theorem run_later_once {τ ι : Type} [AddCommGroup τ] [LinearOrder τ] [IsOrderedAddMonoid τ]
    [DecidableEq ι] (addr : ι → Nat) (sec : ι → τ) (t₀ : τ) (ops : List (RunLater.Op τ ι))
    (s : RunLater τ ι) (hrun : Steps (RunLater.Next addr sec) (RunLater.init t₀) ops s) :
    (∀ c, s.executed.count (some c) ≤ 1) ∧ none ∉ s.executed ∧
    (∀ op s', RunLater.Next addr sec s op s' →
      (s'.executed = s.executed ∨
        ∃ c, s'.executed = s.executed ++ [some c] ∧ (s.later c, some c) ∈ s.jobs ∧
          s.later c < s.clock ∧ ∀ j ∈ s.jobs, s.later c ≤ j.1) ∧
      ∀ d c, (d, some c) ∈ s.jobs → (d, some c) ∈ s'.jobs ∨ some c ∈ s.executed) ∧
    ∀ ops' s', Steps (RunLater.Next addr sec) s ops' s' →
      (∀ c, s.call c = .called → some c ∈ s'.executed → s.clock + max (sec c) 0 < s'.clock) ∧
      (s'.dtor = .returned →
        (∀ c, s.call c = .returned → s.dtor = .alive → s'.executed.count (some c) = 1) ∧
        ∀ rest, ops' = .destructor :: rest → s.dtor = .stopping →
          ((∃ d, (d, none) ∈ s'.jobs) ↔ s.thread = .stopped)) := by
  have hI := RunLater.inv_of_run hrun
  refine ⟨hI.executed_le_one, hI.real, fun op s' hnext => ?_, fun ops' s' hrun' => ⟨?_, ?_⟩⟩
  · obtain ⟨hguard, rfl⟩ := hnext
    -- one step executes what is due, and keeps the rest
    exact ⟨hI.executed_step hguard, fun d c => hI.kept_step hguard⟩
  · -- delays
    exact fun c hc => RunLater.delay_passed hrun hc hrun'
  · -- what the destructor leaves
    refine fun hd' => ⟨fun c hc halive => RunLater.executed_of_returned hrun hc halive hrun' hd', ?_⟩
    rintro rest rfl hd
    obtain ⟨⟩ | ⟨⟨hguard, rfl⟩, hrest⟩ := hrun'
    have hpush : RunLater.effect addr sec s .destructor = s.destroy addr := rfl
    rw [hpush] at hrest
    exact RunLater.pill_left_iff hrun hd hguard hrest hd'

/-- Two jobs, the second one due before the first one, and a thread that is woken up early. -/
theorem run_later_once_two :
    ∃ s s' : RunLater Int Bool,
      Steps (RunLater.Next (fun _ => 8) fun c => if c then 1 else 3) (RunLater.init 100)
        ([.thread, .thread, .thread] ++ List.replicate 5 (.call false) ++
          List.replicate 5 (.call true)) s ∧
      Steps (RunLater.Next (fun _ => 8) fun c => if c then 1 else 3) s
        (List.replicate 6 .thread ++ [.destructor, .tick 102, .destructor] ++
          List.replicate 18 .thread ++ [.tick 105] ++ List.replicate 9 .thread ++ [.destructor]) s' ∧
      s'.executed.count (some false) = 1 := by
  refine ⟨_, _, Steps.of_passes (by decide), Steps.of_passes (by decide), ?_⟩
  exact ((run_later_once _ _ _ _ _ (Steps.of_passes (by decide))).2.2.2 _ _
    (Steps.of_passes (by decide))).2 (by decide) |>.1 false (by decide) (by decide)

/-- A thread that finds `should_stop_` set and the queue empty stops before the death pill is
    pushed, which nobody takes then. -/
theorem pill_not_consumed :
    ¬ ∀ (ops : List (RunLater.Op Int Bool)) (s : RunLater Int Bool),
      Steps (RunLater.Next (fun _ => 8) fun _ => 1) (RunLater.init 100) ops s →
        s.dtor = .returned → ∀ d, (d, none) ∉ s.jobs := by
  intro hall
  refine hall [.destructor, .thread, .thread, .destructor, .destructor] _
    (Steps.of_passes (by decide)) (by decide) 0 ?_
  decide

end SimpleRpc.Base
