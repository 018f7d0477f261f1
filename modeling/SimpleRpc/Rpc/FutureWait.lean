import SimpleRpc.Lib.Machine
import Mathlib.Data.Fintype.Basic

/-!
# Waiting for a Future

One `Future` that was put into `pending_fu_`, any number of calls of `wait` and `timed_wait` on
it, and the one thread that takes it out of `pending_fu_`: `Client::handle_read` with a reply, or
`Client::invalidate_pending_futures` with `ENOTCONN`. What stands between a lock and an unlock of
`ready_m_` is one step, and so is every access to a field outside of it.

## Layers

- **Code**: `SharedFuture.effect`, the steps of `wait`, `timed_wait` and `notify_ready`, and of
  their callers
- **System**: `SharedFuture.Guard`, any interleaving of these
- **Invariant**: `SharedFuture.OutcomeInv` and `SharedFuture.ResultInv`

## Main results

- `one_outcome_of_orderly`: one outcome and one callback, in the runs in which no timeout
  overtakes a completion and one `timed_wait` at most reports the timeout
- `result_stable_of_undisturbed`: the result of a complete Future stays, in the runs in which
  a Future that has timed out is left alone

## Model

Time is not modelled: `pthread_cond_timedwait` returns when it likes, with `0` or with
`ETIMEDOUT`. `Pthread_cond_wait` may return without a signal. A call that `verify` stops ends the
process.
-/

namespace SimpleRpc.Rpc

open SimpleRpc.Lib

/-- `ETIMEDOUT` of `errno.h` -/
def ETIMEDOUT : Int32 := 110
/-- `ENOTCONN` of `errno.h` -/
def ENOTCONN : Int32 := 107

/-- Where a call of `wait` or `timed_wait` is. -/
inductive WaitCall where
  | idle
  /-- `wait`, in `Pthread_cond_wait` -/
  | waiting
  /-- `wait` has returned -/
  | waited
  /-- `timed_wait`, in `pthread_cond_timedwait` -/
  | timedWaiting
  /-- `timed_wait` has released the mutex -/
  | left
  /-- `timed_wait` has found `timed_out_` set -/
  | expired
  /-- `timed_wait` has written `error_code_` -/
  | coded
  /-- `timed_wait` has returned without a timeout -/
  | timedWaited
  /-- `timed_wait` has reported the timeout and returned -/
  | reported
  deriving DecidableEq

/-- This `timed_wait` has found `timed_out_` set. -/
def WaitCall.Expired : WaitCall → Prop
  | .expired | .coded | .reported => True
  | _ => False

instance : DecidablePred WaitCall.Expired := fun c => by
  cases c <;> unfold WaitCall.Expired <;> infer_instance

/-- What a Future is completed with. -/
inductive Answer where
  /-- by `handle_read` -/
  | reply (errorCode : Int32) (payload : List UInt8)
  /-- by `invalidate_pending_futures` -/
  | notConn
  deriving DecidableEq

/-- Where the thread is that takes the Future out of `pending_fu_`. -/
inductive Completer where
  /-- the Future is in `pending_fu_` -/
  | pending
  | taken (answer : Answer)
  /-- `handle_read` has written `error_code_` -/
  | coded (payload : List UInt8)
  /-- about to call `notify_ready` -/
  | filled
  /-- `notify_ready` has released the mutex -/
  | notified
  | done
  deriving DecidableEq

instance Completer.decidableTaken : ∀ c : Completer, Decidable (∃ answer, c = .taken answer)
  | .taken answer => isTrue ⟨answer, rfl⟩
  | .pending | .coded _ | .filled | .notified | .done => isFalse (by simp)

instance Completer.decidableCoded : ∀ c : Completer, Decidable (∃ payload, c = .coded payload)
  | .coded payload => isTrue ⟨payload, rfl⟩
  | .pending | .taken _ | .filled | .notified | .done => isFalse (by simp)

/-- A `Future` whose calls of `wait` and `timed_wait` are named by `κ`. -/
structure SharedFuture (κ : Type) where
  ready : Bool
  timedOut : Bool
  errorCode : Int32
  reply : List UInt8
  /-- `attr_.callback != nullptr` -/
  callback : Bool
  calls : κ → WaitCall
  completer : Completer
  /-- ghost: how often the callback was invoked -/
  callbacks : Nat

/-- One step of one thread. -/
inductive FutureOp (κ : Type) where
  /-- `wait` locks and tests its loop condition -/
  | wait (c : κ)
  /-- `Pthread_cond_wait` returns -/
  | wake (c : κ)
  /-- `timed_wait` locks and tests its loop condition -/
  | timedWait (c : κ)
  /-- `pthread_cond_timedwait` returns, with `ETIMEDOUT` or with `0` -/
  | timedWake (c : κ) (etimedout : Bool)
  /-- `if (timed_out_)` -/
  | testTimedOut (c : κ)
  /-- `error_code_ = ETIMEDOUT;` -/
  | storeTimeout (c : κ)
  /-- `attr_.callback(this);` of `timed_wait` -/
  | reportTimeout (c : κ)
  /-- `pending_fu_.erase(it);` or `pending_fu_.clear();` -/
  | take (answer : Answer)
  /-- `fu->error_code_ = ..;` -/
  | storeCode
  /-- `fu->reply_.read_from_marshal(in_, ..);` -/
  | storeReply
  /-- the critical section of `notify_ready` -/
  | notifyReady
  /-- `attr_.callback(this);` of `notify_ready` -/
  | finish
  deriving DecidableEq

namespace SharedFuture

variable {κ : Type}

/-- A Future that `begin_request` has put into `pending_fu_`. -/
def init (callback : Bool) : SharedFuture κ :=
  ⟨false, false, 0, [], callback, fun _ => .idle, .pending, 0⟩

/-! ## The code -/

variable [DecidableEq κ]

/-- The call is at another place. -/
def goto (s : SharedFuture κ) (c : κ) (pc : WaitCall) : SharedFuture κ :=
  { s with calls := Function.update s.calls c pc }

/-- `while (!ready_ && !timed_out_)`: the call sleeps, or releases the mutex. -/
def loop (s : SharedFuture κ) (c : κ) (sleep leave : WaitCall) : SharedFuture κ :=
  s.goto c (if !s.ready && !s.timedOut then sleep else leave)

/-- What each step does. -/
def effect (s : SharedFuture κ) : FutureOp κ → SharedFuture κ
  | .wait c | .wake c => s.loop c .waiting .waited
  | .timedWait c => s.loop c .timedWaiting .left
  | .timedWake c etimedout =>
    -- `ready_` is not looked at again before `timed_out_` is set
    { s with timedOut := s.timedOut || etimedout }.loop c .timedWaiting .left
  | .testTimedOut c => s.goto c (if s.timedOut then .expired else .timedWaited)
  | .storeTimeout c => { s with errorCode := ETIMEDOUT }.goto c .coded
  | .reportTimeout c =>
    { s with callbacks := s.callbacks + if s.callback then 1 else 0 }.goto c .reported
  | .take answer => { s with completer := .taken answer }
  | .storeCode =>
    match s.completer with
    | .taken (.reply errorCode payload) =>
      { s with errorCode := errorCode, completer := .coded payload }
    | .taken .notConn => { s with errorCode := ENOTCONN, completer := .filled }
    | _ => s
  | .storeReply =>
    match s.completer with
    | .coded payload => { s with reply := s.reply ++ payload, completer := .filled }
    | _ => s
  | .notifyReady => { s with ready := s.ready || !s.timedOut, completer := .notified }
  | .finish =>
    { s with callbacks := s.callbacks + if s.ready && s.callback then 1 else 0
             completer := .done }

/-- The thread is at the place where it takes this step. -/
def Guard (s : SharedFuture κ) : FutureOp κ → Prop
  | .wait c | .timedWait c => s.calls c = .idle
  | .wake c => s.calls c = .waiting
  | .timedWake c _ => s.calls c = .timedWaiting
  | .testTimedOut c => s.calls c = .left
  | .storeTimeout c => s.calls c = .expired
  | .reportTimeout c => s.calls c = .coded
  -- the lock of `pending_fu_` lets only one thread find the Future
  | .take _ => s.completer = .pending
  | .storeCode => ∃ answer, s.completer = .taken answer
  | .storeReply => ∃ payload, s.completer = .coded payload
  | .notifyReady => s.completer = .filled
  | .finish => s.completer = .notified

instance decidableGuard (s : SharedFuture κ) : ∀ a, Decidable (s.Guard a)
  | .wait _ | .wake _ | .timedWait _ | .timedWake _ _ | .testTimedOut _ | .storeTimeout _
  | .reportTimeout _ => inferInstanceAs (Decidable (_ = _))
  | .take _ | .notifyReady | .finish => inferInstanceAs (Decidable (_ = _))
  | .storeCode => Completer.decidableTaken s.completer
  | .storeReply => Completer.decidableCoded s.completer

/-- `get_error_code()`, unless it blocks. -/
def getErrorCode (s : SharedFuture κ) : Option Int32 :=
  if !s.ready && !s.timedOut then none else some s.errorCode

/-- `get_reply()`, unless it blocks. -/
def getReply (s : SharedFuture κ) : Option (List UInt8) :=
  if !s.ready && !s.timedOut then none else some s.reply

/-! ## Small facts about one step -/

section Fields

variable (s : SharedFuture κ) (c : κ) (pc sleep leave : WaitCall)

@[simp] theorem goto_ready : (s.goto c pc).ready = s.ready := rfl
@[simp] theorem goto_timedOut : (s.goto c pc).timedOut = s.timedOut := rfl
@[simp] theorem goto_errorCode : (s.goto c pc).errorCode = s.errorCode := rfl
@[simp] theorem goto_reply : (s.goto c pc).reply = s.reply := rfl
@[simp] theorem goto_callback : (s.goto c pc).callback = s.callback := rfl
@[simp] theorem goto_completer : (s.goto c pc).completer = s.completer := rfl
@[simp] theorem goto_callbacks : (s.goto c pc).callbacks = s.callbacks := rfl
@[simp] theorem goto_calls : (s.goto c pc).calls = Function.update s.calls c pc := rfl

/-- Where a call is after it tested its loop condition. -/
theorem loop_cases :
    (s.ready = false ∧ s.timedOut = false ∧ s.loop c sleep leave = s.goto c sleep) ∨
    ((s.ready = true ∨ s.timedOut = true) ∧ s.loop c sleep leave = s.goto c leave) := by
  unfold loop
  cases s.ready <;> cases s.timedOut <;> simp

end Fields

/-! ## One outcome and one callback -/

/-- What `ready_`, `timed_out_` and the callback should be. -/
def OneOutcome (s : SharedFuture κ) : Prop :=
  ¬ (s.ready = true ∧ s.timedOut = true) ∧ s.callbacks ≤ 1

/-- `pthread_cond_timedwait` does not return `ETIMEDOUT` on a Future that is ready, and where
    there is a callback, only one `timed_wait` finds `timed_out_` set. -/
def Orderly (s : SharedFuture κ) : FutureOp κ → Prop
  | .timedWake _ true => s.ready = false
  | .testTimedOut _ => s.callback = true → s.timedOut = true → ∀ c, ¬ (s.calls c).Expired
  | _ => True

instance decidableOrderly [Fintype κ] (s : SharedFuture κ) : ∀ a, Decidable (s.Orderly a)
  | .timedWake _ true => inferInstanceAs (Decidable (_ = _))
  | .testTimedOut _ => inferInstanceAs (Decidable (_ → _ → ∀ _, ¬ _))
  | .wait _ | .wake _ | .timedWait _ | .timedWake _ false | .storeTimeout _ | .reportTimeout _
  | .take _ | .storeCode | .storeReply | .notifyReady | .finish => isTrue trivial

/-- The callback is invoked by the `timed_wait` that has found `timed_out_` set, or by
    `notify_ready` if there is none. -/
structure OutcomeInv (s : SharedFuture κ) : Prop where
  outcome : ¬ (s.ready = true ∧ s.timedOut = true)
  expired : ∀ c, (s.calls c).Expired → s.timedOut = true
  unique : s.callback = true → ∀ c c', (s.calls c).Expired → (s.calls c').Expired → c = c'
  once : s.callbacks ≤ 1
  /-- as long as nobody was at the end of its function, there was no callback -/
  silent : (∀ c, s.calls c ≠ .reported) → (s.ready = false ∨ s.completer ≠ .done) →
    s.callbacks = 0
  disabled : s.callback = false → s.callbacks = 0

omit [DecidableEq κ] in
theorem OutcomeInv.init (callback : Bool) : OutcomeInv (init callback : SharedFuture κ) := by
  constructor <;> simp [SharedFuture.init, WaitCall.Expired]

section OutcomeSteps

variable {s : SharedFuture κ} {c : κ} {pc : WaitCall}

/-- A call may move as long as it does not find `timed_out_` set. -/
theorem OutcomeInv.goto (h : OutcomeInv s) (hpc : pc.Expired → (s.calls c).Expired)
    (hold : s.calls c ≠ .reported) : OutcomeInv (s.goto c pc) := by
  -- no call has found it set that had not before
  have hsame : ∀ c', (Function.update s.calls c pc c').Expired → (s.calls c').Expired := by
    intro c' hexp
    by_cases hc : c' = c
    · subst hc
      rw [Function.update_self] at hexp
      exact hpc hexp
    · rwa [Function.update_of_ne hc] at hexp
  constructor
  · exact h.outcome
  · intro c' hexp
    exact h.expired c' (hsame c' hexp)
  · intro hcb c₁ c₂ h₁ h₂
    exact h.unique hcb c₁ c₂ (hsame c₁ h₁) (hsame c₂ h₂)
  · exact h.once
  · intro hnone hor
    refine h.silent (fun c' hrep => ?_) hor
    by_cases hc : c' = c
    · subst hc
      exact hold hrep
    · exact hnone c' (by simp [Function.update_of_ne hc, hrep])
  · exact h.disabled

theorem OutcomeInv.loop {sleep leave : WaitCall} (h : OutcomeInv s)
    (hold : ¬ (s.calls c).Expired) (hsleep : ¬ sleep.Expired) (hleave : ¬ leave.Expired) :
    OutcomeInv (s.loop c sleep leave) := by
  have hrep : s.calls c ≠ .reported := by
    intro hrep
    exact hold (by simp [hrep, WaitCall.Expired])
  obtain ⟨-, -, heq⟩ | ⟨-, heq⟩ := s.loop_cases c sleep leave
  · rw [heq]
    exact h.goto (fun hexp => absurd hexp hsleep) hrep
  · rw [heq]
    exact h.goto (fun hexp => absurd hexp hleave) hrep

omit [DecidableEq κ] in
/-- `timed_out_ = true;` -/
theorem OutcomeInv.timeout (h : OutcomeInv s) (hready : s.ready = false) :
    OutcomeInv { s with timedOut := true } :=
  { h with outcome := by simp [hready], expired := fun _ _ => rfl }

/-- `if (timed_out_)` -/
theorem OutcomeInv.testTimedOut (h : OutcomeInv s) (hc : s.calls c = .left)
    (hfirst : s.callback = true → s.timedOut = true → ∀ c, ¬ (s.calls c).Expired) :
    OutcomeInv (s.effect (.testTimedOut c)) := by
  have hold : s.calls c ≠ .reported := by simp [hc]
  unfold effect
  cases htimed : s.timedOut with
  | false => exact h.goto (by simp [WaitCall.Expired]) hold
  | true =>
    -- apart from this call, the calls are those of `s.goto c .left`
    have hleft : OutcomeInv (s.goto c .left) := h.goto False.elim hold
    refine { hleft with expired := fun _ _ => htimed, unique := ?_, silent := ?_ }
    · intro hcb
      have hself : ∀ c', (Function.update s.calls c .expired c').Expired → c' = c := by
        intro c' hexp
        by_contra hne
        rw [Function.update_of_ne hne] at hexp
        exact hfirst hcb htimed c' hexp
      intro c₁ c₂ h₁ h₂
      rw [hself c₁ h₁, hself c₂ h₂]
    · intro hnone hor
      refine h.silent (fun c' hrep => ?_) hor
      by_cases hne : c' = c
      · subst hne
        exact hold hrep
      · exact hnone c' (by simp [Function.update_of_ne hne, hrep])

/-- A call that has found `timed_out_` set goes on to write `error_code_`. -/
theorem OutcomeInv.storeTimeout (h : OutcomeInv s) (hc : s.calls c = .expired) :
    OutcomeInv (s.effect (.storeTimeout c)) := by
  have hgoto : OutcomeInv (s.goto c .coded) :=
    h.goto (fun _ => by simp [hc, WaitCall.Expired]) (by simp [hc])
  exact { hgoto with }

omit [DecidableEq κ] in
/-- Nobody has invoked the callback when a `timed_wait` is about to. -/
theorem OutcomeInv.callbacks_eq_zero (h : OutcomeInv s) (hc : s.calls c = .coded) :
    s.callbacks = 0 := by
  have hexp : (s.calls c).Expired := by simp [hc, WaitCall.Expired]
  have htimed : s.timedOut = true := h.expired c hexp
  have hready : s.ready = false := by
    cases hr : s.ready
    · rfl
    · exact absurd ⟨hr, htimed⟩ h.outcome
  cases hcb : s.callback with
  | false => exact h.disabled hcb
  | true =>
    refine h.silent (fun c' hrep => ?_) (.inl hready)
    have hexp' : (s.calls c').Expired := by simp [hrep, WaitCall.Expired]
    have heq : c' = c := h.unique hcb c' c hexp' hexp
    rw [heq, hc] at hrep
    cases hrep

/-- `attr_.callback(this);` of `timed_wait` -/
theorem OutcomeInv.reportTimeout (h : OutcomeInv s) (hc : s.calls c = .coded) :
    OutcomeInv (s.effect (.reportTimeout c)) := by
  have hzero : s.callbacks = 0 := h.callbacks_eq_zero hc
  have hgoto : OutcomeInv (s.goto c .reported) :=
    h.goto (fun _ => by simp [hc, WaitCall.Expired]) (by simp [hc])
  refine { hgoto with once := ?_, silent := ?_, disabled := ?_ }
  · simp only [effect, goto_callbacks, hzero]
    split <;> simp
  · intro hnone
    exact absurd (by simp [effect]) (hnone c)
  · intro hcb
    have hcb : s.callback = false := hcb
    simp [effect, hcb, hzero]

/-- The critical section of `notify_ready`. -/
theorem OutcomeInv.notifyReady (h : OutcomeInv s) (hc : s.completer = .filled) :
    OutcomeInv (s.effect .notifyReady) := by
  have hsilent : (∀ c, s.calls c ≠ .reported) → s.callbacks = 0 :=
    fun hnone => h.silent hnone (.inr (by simp [hc]))
  refine { h with outcome := ?_, silent := fun hnone _ => hsilent hnone }
  -- `ready_` is set only where `timed_out_` is not
  rintro ⟨hready, htimed⟩
  have htimed : s.timedOut = true := htimed
  have hready : s.ready = true := by simpa [effect, htimed] using hready
  exact h.outcome ⟨hready, htimed⟩

/-- `attr_.callback(this);` of `notify_ready` -/
theorem OutcomeInv.finish (h : OutcomeInv s) (hc : s.completer = .notified) :
    OutcomeInv (s.effect .finish) := by
  cases hready : s.ready with
  | false =>
    have hsame : s.effect .finish = { s with completer := .done } := by simp [effect, hready]
    rw [hsame]
    exact { h with silent := fun hnone _ => h.silent hnone (.inl hready) }
  | true =>
    -- no `timed_wait` reports a timeout of a Future that is ready
    have hnone : ∀ c, s.calls c ≠ .reported := by
      intro c hrep
      have htimed := h.expired c (by simp [hrep, WaitCall.Expired])
      exact h.outcome ⟨hready, htimed⟩
    have hzero : s.callbacks = 0 := h.silent hnone (.inr (by simp [hc]))
    refine { h with once := ?_, silent := ?_, disabled := ?_ }
    · simp only [effect, hzero]
      split <;> simp
    · intro _ hor
      simp [effect, hready] at hor
    · intro hcb
      have hcb : s.callback = false := hcb
      simp [effect, hcb, hzero]

/-- **One step** of an orderly run keeps the invariant. -/
theorem OutcomeInv.effect {a : FutureOp κ} (h : OutcomeInv s) (hguard : s.Guard a)
    (horderly : s.Orderly a) : OutcomeInv (s.effect a) := by
  cases a with
  | wait c =>
    -- calls that enter or wake leave the outcome alone
    have hc : s.calls c = .idle := hguard
    exact h.loop (by simp [hc, WaitCall.Expired]) id id
  | wake c =>
    have hc : s.calls c = .waiting := hguard
    exact h.loop (by simp [hc, WaitCall.Expired]) id id
  | timedWait c =>
    have hc : s.calls c = .idle := hguard
    exact h.loop (by simp [hc, WaitCall.Expired]) id id
  | timedWake c etimedout =>
    -- the wait ends by the clock, or for another reason
    have hc : s.calls c = .timedWaiting := hguard
    have hold : ¬ (s.calls c).Expired := by simp [hc, WaitCall.Expired]
    cases etimedout with
    | false =>
      simp only [SharedFuture.effect, Bool.or_false]
      exact h.loop hold id id
    | true =>
      simp only [SharedFuture.effect, Bool.or_true]
      exact (h.timeout horderly).loop hold id id
  | testTimedOut c => exact h.testTimedOut hguard horderly
  | storeTimeout c => exact h.storeTimeout hguard
  | reportTimeout c => exact h.reportTimeout hguard
  | take answer =>
    -- the completer begins
    have hc : s.completer = .pending := hguard
    exact { h with silent := fun hnone _ => h.silent hnone (.inr (by simp [hc])) }
  | storeCode =>
    obtain ⟨answer, hc⟩ := hguard
    have hsilent : (∀ c, s.calls c ≠ .reported) → s.callbacks = 0 :=
      fun hnone => h.silent hnone (.inr (by simp [hc]))
    cases answer <;> simp only [SharedFuture.effect, hc] <;>
      exact { h with silent := fun hnone _ => hsilent hnone }
  | storeReply =>
    obtain ⟨payload, hc⟩ := hguard
    simp only [SharedFuture.effect, hc]
    exact { h with silent := fun hnone _ => h.silent hnone (.inr (by simp [hc])) }
  | notifyReady => exact h.notifyReady hguard
  | finish => exact h.finish hguard

end OutcomeSteps

/-- **One outcome, one callback**: in every run whose steps are orderly, `ready_` and
    `timed_out_` are never both set and the callback is invoked at most once. -/
theorem one_outcome_of_orderly {callback : Bool} {as : List (FutureOp κ)} {s : SharedFuture κ}
    (hrun : Steps (Guarded (fun s a => s.Guard a ∧ s.Orderly a) effect) (init callback) as s) :
    s.OneOutcome := by
  have hinv : OutcomeInv s := by
    apply hrun.guarded_invariant _ (OutcomeInv.init callback)
    intro s a h hguard
    exact h.effect hguard.1 hguard.2
  exact ⟨hinv.outcome, hinv.once⟩

/-- A `timed_wait` runs into its timeout, and the reply comes afterwards. -/
def lateReply (errorCode : Int32) (payload : List UInt8) : List (FutureOp Unit) :=
  [.timedWait (), .timedWake () true, .testTimedOut (), .storeTimeout (), .reportTimeout (),
   .take (.reply errorCode payload), .storeCode, .storeReply, .notifyReady, .finish]

theorem one_outcome_lateReply : OneOutcome ((lateReply 0 [1]).foldl effect (init true)) :=
  one_outcome_of_orderly (Steps.of_passes (by decide : Passes _ effect (init true) (lateReply 0 [1])))

/-- The reply comes before `pthread_cond_timedwait` has the mutex again. -/
def overtaken : List (FutureOp Unit) :=
  [.timedWait (), .take (.reply 0 []), .storeCode, .storeReply, .notifyReady, .finish,
   .timedWake () true, .testTimedOut (), .storeTimeout (), .reportTimeout ()]

/-- Two threads wait for a Future that nobody completes. -/
def twoTimeouts : List (FutureOp Bool) :=
  [.timedWait true, .timedWake true true, .testTimedOut true, .storeTimeout true,
   .reportTimeout true, .timedWait false, .testTimedOut false, .storeTimeout false,
   .reportTimeout false]

/-- **Two outcomes**: a timeout that overtakes a completion, and two callbacks without one. -/
theorem two_outcomes :
    (∃ s : SharedFuture Unit, Steps (Guarded Guard effect) (init true) overtaken s ∧
      s.ready = true ∧ s.timedOut = true ∧ s.callbacks = 2) ∧
    (∃ s : SharedFuture Bool, Steps (Guarded Guard effect) (init true) twoTimeouts s ∧
      s.ready = false ∧ s.callbacks = 2) := by
  constructor
  · refine ⟨overtaken.foldl effect (init true), Steps.of_passes (by decide), ?_⟩
    decide
  · refine ⟨twoTimeouts.foldl effect (init true), Steps.of_passes (by decide), ?_⟩
    decide

/-! ## The result of a complete Future -/

/-- `ready_` is set, or a `timed_wait` has returned with `timed_out_` set. -/
def Complete (s : SharedFuture κ) : Prop :=
  s.ready = true ∨ s.timedOut = true ∧ ∃ c, s.calls c = .timedWaited ∨ s.calls c = .reported

/-- `pthread_cond_timedwait` does not return `ETIMEDOUT` on a Future that is ready, and
    `handle_read` and `invalidate_pending_futures` do not write to a Future whose `timed_out_`
    is set. -/
def Undisturbed (s : SharedFuture κ) : FutureOp κ → Prop
  | .timedWake _ true => s.ready = false
  | .storeCode | .storeReply => s.timedOut = false
  | _ => True

instance decidableUndisturbed (s : SharedFuture κ) : ∀ a, Decidable (s.Undisturbed a)
  | .timedWake _ true | .storeCode | .storeReply => inferInstanceAs (Decidable (_ = _))
  | .wait _ | .wake _ | .timedWait _ | .timedWake _ false | .testTimedOut _ | .storeTimeout _
  | .reportTimeout _ | .take _ | .notifyReady | .finish => isTrue trivial

/-- What a call knows about the result, by the place where it is. -/
def CallOk (ready timedOut : Bool) (errorCode : Int32) : WaitCall → Prop
  | .left => ready = true ∨ timedOut = true
  | .timedWaited => ready = true
  | .expired => timedOut = true
  | .coded | .reported => timedOut = true ∧ errorCode = ETIMEDOUT
  | _ => True

/-- The result has been written when a call returns. -/
structure ResultInv (s : SharedFuture κ) : Prop where
  outcome : ¬ (s.ready = true ∧ s.timedOut = true)
  calls : ∀ c, CallOk s.ready s.timedOut s.errorCode (s.calls c)
  written : s.ready = true → s.completer = .notified ∨ s.completer = .done

omit [DecidableEq κ] in
theorem ResultInv.init (callback : Bool) : ResultInv (init callback : SharedFuture κ) := by
  constructor <;> simp [SharedFuture.init, CallOk]

/-- The flags are never reset. -/
theorem CallOk.mono {ready ready' timedOut timedOut' : Bool} {errorCode : Int32} {pc : WaitCall}
    (h : CallOk ready timedOut errorCode pc) (hready : ready = true → ready' = true)
    (htimed : timedOut = true → timedOut' = true) : CallOk ready' timedOut' errorCode pc := by
  cases pc with
  | left => exact h.imp hready htimed
  | timedWaited => exact hready h
  | expired => exact htimed h
  | coded => exact ⟨htimed h.1, h.2⟩
  | reported => exact ⟨htimed h.1, h.2⟩
  | _ => trivial

/-- Before a timeout, no call relies on the error code. -/
theorem CallOk.code {ready : Bool} {errorCode errorCode' : Int32} {pc : WaitCall}
    (h : CallOk ready false errorCode pc) : CallOk ready false errorCode' pc := by
  cases pc with
  | coded => exact absurd h.1 (by simp)
  | reported => exact absurd h.1 (by simp)
  | _ => exact h

/-- After `error_code_ = ETIMEDOUT;` the calls that rely on the error code are right. -/
theorem CallOk.etimedout {ready timedOut : Bool} {errorCode : Int32} {pc : WaitCall}
    (h : CallOk ready timedOut errorCode pc) : CallOk ready timedOut ETIMEDOUT pc := by
  cases pc with
  | coded => exact ⟨h.1, rfl⟩
  | reported => exact ⟨h.1, rfl⟩
  | _ => exact h

section ResultSteps

variable {s : SharedFuture κ} {c : κ} {pc : WaitCall}

theorem ResultInv.goto (h : ResultInv s) (hpc : CallOk s.ready s.timedOut s.errorCode pc) :
    ResultInv (s.goto c pc) := by
  refine { h with calls := ?_ }
  intro c'
  by_cases hc : c' = c
  · subst hc
    simpa using hpc
  · simpa [Function.update_of_ne hc] using h.calls c'

theorem ResultInv.loop {sleep leave : WaitCall} (h : ResultInv s)
    (hsleep : ∀ ready timedOut errorCode, CallOk ready timedOut errorCode sleep)
    (hleave : s.ready = true ∨ s.timedOut = true → CallOk s.ready s.timedOut s.errorCode leave) :
    ResultInv (s.loop c sleep leave) := by
  obtain ⟨-, -, heq⟩ | ⟨hset, heq⟩ := s.loop_cases c sleep leave
  · rw [heq]
    exact h.goto (hsleep _ _ _)
  · rw [heq]
    exact h.goto (hleave hset)

omit [DecidableEq κ] in
/-- The completer writes to a Future that has not timed out. -/
theorem ResultInv.write (h : ResultInv s) (htimed : s.timedOut = false)
    (hwritten : ¬ (s.completer = .notified ∨ s.completer = .done)) (errorCode : Int32)
    (reply : List UInt8) (completer : Completer) :
    ResultInv { s with errorCode := errorCode, reply := reply, completer := completer } := by
  refine ⟨h.outcome, ?_, ?_⟩
  · intro c
    have hcall := h.calls c
    simp only [htimed] at hcall ⊢
    exact hcall.code
  · intro hready
    exact absurd (h.written hready) hwritten

omit [DecidableEq κ] in
/-- The critical section of `notify_ready`. -/
theorem ResultInv.notifyReady (h : ResultInv s) :
    ResultInv { s with ready := s.ready || !s.timedOut, completer := .notified } := by
  refine ⟨?_, ?_, ?_⟩
  · rintro ⟨hready, htimed⟩
    have htimed : s.timedOut = true := htimed
    have hready : s.ready = true := by simpa [htimed] using hready
    exact h.outcome ⟨hready, htimed⟩
  · intro c
    exact (h.calls c).mono (fun hready => by simp [hready]) id
  · intro _
    exact .inl rfl

/-- **One step** of an undisturbed run keeps the invariant. -/
theorem ResultInv.effect {a : FutureOp κ} (h : ResultInv s) (hguard : s.Guard a)
    (hund : s.Undisturbed a) : ResultInv (s.effect a) := by
  cases a with
  -- calls that enter or wake store nothing
  | wait c => exact h.loop (fun _ _ _ => trivial) (fun _ => trivial)
  | wake c => exact h.loop (fun _ _ _ => trivial) (fun _ => trivial)
  | timedWait c => exact h.loop (fun _ _ _ => trivial) id
  | timedWake c etimedout =>
    cases etimedout with
    | false =>
      simp only [SharedFuture.effect, Bool.or_false]
      exact h.loop (fun _ _ _ => trivial) id
    | true =>
      -- the time ran out before the reply was there
      have hready : s.ready = false := hund
      have htimeout : ResultInv { s with timedOut := true } :=
        { h with
          outcome := by simp [hready]
          calls := fun c => (h.calls c).mono id (fun _ => rfl) }
      simp only [SharedFuture.effect, Bool.or_true]
      exact htimeout.loop (fun _ _ _ => trivial) id
  | testTimedOut c =>
    have hc : s.calls c = .left := hguard
    have hset : s.ready = true ∨ s.timedOut = true := by simpa [hc, CallOk] using h.calls c
    -- the loop was left through one of its two flags
    cases htimed : s.timedOut with
    | false =>
      have hready : s.ready = true := by simpa [htimed] using hset
      simp only [SharedFuture.effect, htimed, Bool.false_eq_true, if_false]
      exact h.goto hready
    | true =>
      simp only [SharedFuture.effect, htimed, if_true]
      exact h.goto htimed
  | storeTimeout c =>
    have hc : s.calls c = .expired := hguard
    have htimed : s.timedOut = true := by simpa [hc, CallOk] using h.calls c
    have hcode : ResultInv { s with errorCode := ETIMEDOUT } :=
      { h with calls := fun c => (h.calls c).etimedout }
    exact hcode.goto ⟨htimed, rfl⟩
  | reportTimeout c =>
    have hc : s.calls c = .coded := hguard
    have hcode : s.timedOut = true ∧ s.errorCode = ETIMEDOUT := by
      simpa [hc, CallOk] using h.calls c
    have hgoto : ResultInv (s.goto c .reported) := h.goto hcode
    exact { hgoto with }
  | take answer =>
    have hc : s.completer = .pending := hguard
    exact { h with written := fun hready => by simpa [hc] using h.written hready }
  | storeCode =>
    -- the fields are written before `ready_`
    obtain ⟨answer, hc⟩ := hguard
    cases answer <;> simp only [SharedFuture.effect, hc] <;>
      exact h.write hund (by simp [hc]) _ _ _
  | storeReply =>
    obtain ⟨payload, hc⟩ := hguard
    simp only [SharedFuture.effect, hc]
    exact h.write hund (by simp [hc]) _ _ _
  | notifyReady => exact h.notifyReady
  | finish => exact { h with written := fun _ => .inr rfl }

/-- The Future is complete, with the same result as before. -/
structure SameResult (s s' : SharedFuture κ) : Prop where
  complete : s'.Complete
  errorCode_eq : s'.errorCode = s.errorCode
  reply_eq : s'.reply = s.reply

/-- A call that has not returned may move. -/
theorem Complete.goto (h : s.Complete) (hc : s.calls c ≠ .timedWaited ∧ s.calls c ≠ .reported) :
    SameResult s (s.goto c pc) := by
  refine ⟨h.imp id ?_, rfl, rfl⟩
  rintro ⟨htimed, c', hreturned⟩
  have hne : c' ≠ c := by
    intro hne
    rw [hne] at hreturned
    exact hreturned.elim hc.1 hc.2
  exact ⟨htimed, c', by simpa [Function.update_of_ne hne] using hreturned⟩

theorem Complete.loop {sleep leave : WaitCall} (h : s.Complete)
    (hc : s.calls c ≠ .timedWaited ∧ s.calls c ≠ .reported) :
    SameResult s (s.loop c sleep leave) := by
  obtain ⟨-, -, heq⟩ | ⟨-, heq⟩ := s.loop_cases c sleep leave
  · rw [heq]
    exact h.goto hc
  · rw [heq]
    exact h.goto hc

omit [DecidableEq κ] in
/-- The completer does not write to a complete Future. -/
theorem ResultInv.not_complete (h : ResultInv s) (htimed : s.timedOut = false)
    (hwritten : ¬ (s.completer = .notified ∨ s.completer = .done)) : ¬ s.Complete := by
  rintro (hready | ⟨htimed', -⟩)
  · exact hwritten (h.written hready)
  · rw [htimed] at htimed'
    cases htimed'

omit [DecidableEq κ] in
/-- A call that is about to write `ETIMEDOUT` to a complete Future finds it there. -/
theorem ResultInv.errorCode_eq (h : ResultInv s) (hdone : s.Complete)
    (hc : s.calls c = .expired) : s.errorCode = ETIMEDOUT := by
  have htimed : s.timedOut = true := by simpa [hc, CallOk] using h.calls c
  have hready : s.ready ≠ true := fun hready => h.outcome ⟨hready, htimed⟩
  obtain hready' | ⟨-, c', hreturned⟩ := hdone
  · exact absurd hready' hready
  · have hcall := h.calls c'
    obtain hwaited | hreported := hreturned
    · exact absurd (by simpa [hwaited, CallOk] using hcall) hready
    · rw [hreported] at hcall
      exact hcall.2

/-- **One step** of an undisturbed run keeps the result of a complete Future. -/
theorem ResultInv.sameResult {a : FutureOp κ} (h : ResultInv s) (hguard : s.Guard a)
    (hund : s.Undisturbed a) (hdone : s.Complete) : SameResult s (s.effect a) := by
  cases a with
  | wait c =>
    have hc : s.calls c = .idle := hguard
    exact hdone.loop (by simp [hc])
  | wake c =>
    have hc : s.calls c = .waiting := hguard
    exact hdone.loop (by simp [hc])
  | timedWait c =>
    have hc : s.calls c = .idle := hguard
    exact hdone.loop (by simp [hc])
  | timedWake c etimedout =>
    have hc : s.calls c = .timedWaiting := hguard
    have hdone' : Complete { s with timedOut := s.timedOut || etimedout } :=
      hdone.imp id (fun hreturned => ⟨by simp [hreturned.1], hreturned.2⟩)
    have hsame : SameResult _ (s.effect (.timedWake c etimedout)) := hdone'.loop (by simp [hc])
    exact ⟨hsame.complete, hsame.errorCode_eq, hsame.reply_eq⟩
  | testTimedOut c =>
    have hc : s.calls c = .left := hguard
    exact hdone.goto (by simp [hc])
  | storeTimeout c =>
    have hc : s.calls c = .expired := hguard
    -- another call has stored the same code before it returned
    have hgoto : SameResult s (s.goto c .coded) := hdone.goto (by simp [hc])
    exact ⟨hgoto.complete, (h.errorCode_eq hdone hc).symm, rfl⟩
  | reportTimeout c =>
    have hc : s.calls c = .coded := hguard
    have hgoto : SameResult s (s.goto c .reported) := hdone.goto (by simp [hc])
    exact ⟨hgoto.complete, rfl, rfl⟩
  | take answer => exact ⟨hdone, rfl, rfl⟩
  -- the completer does not write to a Future that is complete
  | storeCode =>
    obtain ⟨answer, hc⟩ := hguard
    exact absurd hdone (h.not_complete hund (by simp [hc]))
  | storeReply =>
    obtain ⟨payload, hc⟩ := hguard
    exact absurd hdone (h.not_complete hund (by simp [hc]))
  | notifyReady =>
    refine ⟨hdone.imp (fun hready => ?_) id, rfl, rfl⟩
    simp [SharedFuture.effect, hready]
  | finish => exact ⟨hdone, rfl, rfl⟩

end ResultSteps

omit [DecidableEq κ] in
/-- Nobody blocks on a complete Future. -/
theorem Complete.flags {s : SharedFuture κ} (h : s.Complete) : (!s.ready && !s.timedOut) = false := by
  obtain hready | ⟨htimed, -⟩ := h
  · simp [hready]
  · simp [htimed]

omit [DecidableEq κ] in
theorem SameResult.get {s s' : SharedFuture κ} (h : SameResult s s') (hdone : s.Complete) :
    s'.getErrorCode = s.getErrorCode ∧ s'.getReply = s.getReply := by
  simp only [getErrorCode, getReply, h.complete.flags, hdone.flags, h.errorCode_eq, h.reply_eq,
    and_self]

/-- **The result of a complete Future is stable**: in every run whose steps are undisturbed,
    `get_error_code()` and `get_reply()` give the same from the time on at which the Future is
    complete. -/
theorem result_stable_of_undisturbed {callback : Bool} {as as' : List (FutureOp κ)}
    {s s' : SharedFuture κ}
    (hrun : Steps (Guarded (fun s a => s.Guard a ∧ s.Undisturbed a) effect) (init callback) as s)
    (hdone : s.Complete)
    (hlater : Steps (Guarded (fun s a => s.Guard a ∧ s.Undisturbed a) effect) s as' s') :
    s'.getErrorCode = s.getErrorCode ∧ s'.getReply = s.getReply := by
  have hinv : ResultInv s := by
    apply hrun.guarded_invariant _ (ResultInv.init callback)
    intro s a h hguard
    exact h.effect hguard.1 hguard.2
  have hsame : ResultInv s' ∧ SameResult s s' := by
    apply hlater.guarded_invariant _ ⟨hinv, hdone, rfl, rfl⟩
    rintro s₁ a ⟨h, hsame⟩ hguard
    have hstep := h.sameResult hguard.1 hguard.2 hsame.complete
    exact ⟨h.effect hguard.1 hguard.2, hstep.complete, hstep.errorCode_eq.trans hsame.errorCode_eq,
      hstep.reply_eq.trans hsame.reply_eq⟩
  exact hsame.2.get hdone

/-- A reply comes, a thread waits for it without and then with a time limit. -/
def readInTime : List (FutureOp Bool) :=
  [.timedWait true, .take (.reply 5 [1]), .storeCode, .storeReply, .notifyReady]

theorem result_stable_readInTime :
    let s : SharedFuture Bool := readInTime.foldl effect (init true)
    let s' := [.timedWake true false, .timedWait false, .testTimedOut true, .finish].foldl effect s
    s.getErrorCode = some 5 ∧ s'.getErrorCode = s.getErrorCode ∧ s'.getReply = s.getReply := by
  have hrun : Steps (Guarded (fun s a => Guard s a ∧ Undisturbed s a) effect) (init true)
      readInTime (readInTime.foldl effect (init true)) := Steps.of_passes (by decide)
  exact ⟨by decide, result_stable_of_undisturbed hrun (.inl (by decide))
    (Steps.of_passes (by decide))⟩

/-- **A result that changes**: a reply that comes after the timeout, and a close after it, replace
    the error code that was reported, and the reply appears. -/
theorem result_changes :
    let s : SharedFuture Unit := ((lateReply 5 [1]).take 5).foldl effect (init false)
    Steps (Guarded Guard effect) (init false) ((lateReply 5 [1]).take 5) s ∧ s.Complete ∧
    s.getErrorCode = some ETIMEDOUT ∧ s.getReply = some [] ∧
    (∃ s', Steps (Guarded Guard effect) s ((lateReply 5 [1]).drop 5) s' ∧
      s'.getErrorCode = some 5 ∧ s'.getReply = some [1]) ∧
    (∃ s', Steps (Guarded Guard effect) s [.take .notConn, .storeCode, .notifyReady, .finish] s' ∧
      s'.getErrorCode = some ENOTCONN) := by
  refine ⟨Steps.of_passes (by decide), .inr ⟨by decide, (), .inr (by decide)⟩, by decide,
    by decide, ⟨_, Steps.of_passes (by decide), by decide⟩,
    ⟨_, Steps.of_passes (by decide), by decide⟩⟩

end SharedFuture

end SimpleRpc.Rpc
