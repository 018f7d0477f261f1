import SimpleRpc.Lib.Machine
import Mathlib.Data.Fintype.Basic

/-!
# `pending_fu_` while a Client is closed

`begin_request` puts a Future into `pending_fu_` between two tests of `status_`. `close` sets
`status_` and then takes every Future out of the table, and `handle_read` takes those out for
which a reply came. Whoever takes a Future out calls its `notify_ready` and drops the reference
that the table had.

## Layers

- **Code**: `ClosingClient.effect`, the steps of `begin_request`, `close` and `handle_read`, cut
  at the lock operations, the tests of `status_` and the calls of `notify_ready` and `release`
- **System**: `ClosingClient.Guard`, any interleaving of any number of these calls
- **Invariant**: `ClosingClient.Inv`, where each Future is and how often it was notified;
  `ClosingClient.RefInv`, who owns a reference

## Main results

- `no_request_left_hanging`: after a close, no Future is left in `pending_fu_`, and every Future
  that was returned is notified once, by `close` or by `handle_read`
- `references_counted_of_patient`: the reference count is the number of owners, in the runs in
  which nobody drops the table's reference before `begin_request` has its own

## Model

The Client was connected before and is not connected again. A Future is named by the
`begin_request` call that makes it. `xid_counter_` does not overflow. What is written to `out_`
and `reply_` is left out, and so are lookups of `handle_read` that find nothing.
-/

namespace SimpleRpc.Rpc

open SimpleRpc.Lib

/-- Where a call of `begin_request` is. -/
inductive BeginCall where
  | idle
  /-- it holds `out_l_` -/
  | locked
  /-- it has found `status_` to be `CONNECTED` -/
  | connected
  /-- the Future is in `pending_fu_` -/
  | inserted
  /-- it has found `status_` to be `CONNECTED` again -/
  | confirmed
  /-- it has found that the Client was closed in the meantime -/
  | closedMeanwhile
  /-- the header is written -/
  | written
  /-- it has returned the Future -/
  | returned
  /-- the caller has dropped its reference -/
  | dropped
  /-- it has returned `nullptr` without making a Future -/
  | refused
  /-- it has returned `nullptr` after it made a Future -/
  | withdrawn
  deriving DecidableEq

namespace BeginCall

/-- The call has made its Future. -/
def Created : BeginCall → Prop
  | .idle | .locked | .connected | .refused => False
  | _ => True

/-- The call has returned. -/
def Finished : BeginCall → Prop
  | .returned | .dropped | .refused | .withdrawn => True
  | _ => False

/-- The call has returned the Future. -/
def Returned : BeginCall → Prop
  | .returned | .dropped => True
  | _ => False

/-- How many references the caller owns. -/
def owners : BeginCall → Nat
  | .returned => 1
  | _ => 0

instance : DecidablePred Created := fun c => by cases c <;> unfold Created <;> infer_instance
instance : DecidablePred Finished := fun c => by cases c <;> unfold Finished <;> infer_instance
instance : DecidablePred Returned := fun c => by cases c <;> unfold Returned <;> infer_instance

end BeginCall

/-- Where a call of `close` is. -/
inductive CloseCall where
  | idle
  /-- it has tested `status_` -/
  | entered
  /-- `status_` is `CLOSED` -/
  | marked
  /-- it has emptied `pending_fu_` and works on its list of Futures -/
  | draining
  | returned
  deriving DecidableEq

/-- Who takes Futures out of `pending_fu_`. -/
inductive Remover (γ : Type) where
  | handleRead
  | close (g : γ)
  deriving DecidableEq

/-- What became of the pointer in `pending_fu_`. -/
inductive Removed (γ : Type) where
  /-- nobody has taken it out -/
  | no
  /-- a local variable of its remover; `notify_ready` was called or not -/
  | taken (r : Remover γ) (notified : Bool)
  /-- the remover has called `release` -/
  | released
  /-- `begin_request` has taken it out and released it -/
  | withdrawn
  deriving DecidableEq

namespace Removed

variable {γ : Type}

instance decidableTaken (n : Bool) : ∀ x : Removed γ, Decidable (∃ r, x = .taken r n)
  | .taken r m => decidable_of_iff (m = n) (by simp)
  | .no | .released | .withdrawn => isFalse (by simp)

/-- How often the remover has called `notify_ready`. -/
def notifications : Removed γ → Nat
  | .no | .withdrawn => 0
  | .taken _ notified => notified.toNat
  | .released => 1

/-- How many references the remover owns. -/
def owners : Removed γ → Nat
  | .taken _ _ => 1
  | .no | .released | .withdrawn => 0

end Removed

/-- A Client whose `begin_request` calls are named by `κ` and whose `close` calls by `γ`. -/
structure ClosingClient (κ γ : Type) where
  /-- `status_` is `CONNECTED`, and `CLOSED` otherwise -/
  connected : Bool
  /-- who holds `out_l_` -/
  outL : Option κ
  xidCounter : Nat
  /-- `xid_` of each Future -/
  xid : κ → Nat
  pendingFu : Nat → Option κ
  /-- `refcnt_` of each Future -/
  refCnt : κ → Nat
  begins : κ → BeginCall
  closes : γ → CloseCall
  removed : κ → Removed γ
  /-- ghost: how often `notify_ready` was called for each Future -/
  notified : κ → Nat
  /-- ghost: `begin_request` has used the Future when its count was 0 -/
  usedFreed : κ → Bool

/-- One step of one thread. -/
inductive PendingOp (κ γ : Type) where
  /-- `out_l_.lock();` -/
  | lock (c : κ)
  /-- the first `if (status_ != CONNECTED)` -/
  | check (c : κ)
  /-- `new Future(..)`, and `pending_fu_[fu->xid_] = fu;` under the lock -/
  | insert (c : κ)
  /-- the second `if (status_ != CONNECTED)` -/
  | recheck (c : κ)
  /-- `pending_fu_.find(fu->xid_)`, `release` and `erase` under the lock -/
  | withdraw (c : κ)
  /-- `*this << v64(fu->xid_);` -/
  | write (c : κ)
  /-- `return (Future *) fu->ref_copy();` -/
  | ret (c : κ)
  /-- `end_request` -/
  | endRequest (c : κ)
  /-- the caller of `begin_request` calls `fu->release()` -/
  | drop (c : κ)
  /-- `if (status_ == CONNECTED) { pollmgr_->remove(this); ::close(sock_); }` -/
  | enter (g : γ)
  /-- `status_ = CLOSED;` -/
  | setClosed (g : γ)
  /-- the Futures move from `pending_fu_` to the local list, under the lock -/
  | drain (g : γ)
  /-- the list is empty -/
  | leave (g : γ)
  /-- `handle_read` finds the `xid` of a reply and erases it, under the lock -/
  | takeReply (x : Nat)
  /-- `fu->notify_ready();` of the remover -/
  | notify (c : κ)
  /-- `fu->release();` of the remover -/
  | release (c : κ)
  deriving DecidableEq

namespace ClosingClient

variable {κ γ : Type}

/-- A connected client without requests. -/
def init : ClosingClient κ γ :=
  { connected := true, outL := none, xidCounter := 0, xid := fun _ => 0, pendingFu := fun _ => none
    refCnt := fun _ => 0, begins := fun _ => .idle, closes := fun _ => .idle
    removed := fun _ => .no, notified := fun _ => 0, usedFreed := fun _ => false }

/-- The Future of this call is in `pending_fu_`. -/
def Pending (s : ClosingClient κ γ) (c : κ) : Prop := s.pendingFu (s.xid c) = some c

variable [DecidableEq κ] [DecidableEq γ]

instance (s : ClosingClient κ γ) (c : κ) : Decidable (s.Pending c) :=
  inferInstanceAs (Decidable (_ = _))

/-! ## The code -/

/-- The call is at another place. -/
def goto (s : ClosingClient κ γ) (c : κ) (pc : BeginCall) : ClosingClient κ γ :=
  { s with begins := Function.update s.begins c pc }

/-- `begin_request` uses its Future. -/
def use (s : ClosingClient κ γ) (c : κ) : ClosingClient κ γ :=
  { s with usedFreed := Function.update s.usedFreed c (s.usedFreed c || s.refCnt c == 0) }

/-- What each step does. -/
def effect (s : ClosingClient κ γ) : PendingOp κ γ → ClosingClient κ γ
  | .lock c => { s with outL := some c }.goto c .locked
  | .check c => s.goto c (if s.connected then .connected else .refused)
  | .insert c =>
    { s with
      xidCounter := s.xidCounter + 1
      xid := Function.update s.xid c s.xidCounter
      refCnt := Function.update s.refCnt c 1
      pendingFu := Function.update s.pendingFu s.xidCounter (some c) }.goto c .inserted
  | .recheck c => s.goto c (if s.connected then .confirmed else .closedMeanwhile)
  | .withdraw c =>
    match s.pendingFu (s.xid c) with
    | some c' =>
      -- `it->second->release(); pending_fu_.erase(it);`
      { s.use c with
        refCnt := Function.update s.refCnt c' (s.refCnt c' - 1)
        pendingFu := Function.update s.pendingFu (s.xid c) none
        removed := Function.update s.removed c' .withdrawn }.goto c .withdrawn
    | none => (s.use c).goto c .withdrawn
  | .write c => (s.use c).goto c .written
  | .ret c => { s.use c with refCnt := Function.update s.refCnt c (s.refCnt c + 1) }.goto c .returned
  | .endRequest _ => { s with outL := none }
  | .drop c => { s with refCnt := Function.update s.refCnt c (s.refCnt c - 1) }.goto c .dropped
  | .enter g => { s with closes := Function.update s.closes g .entered }
  | .setClosed g => { s with connected := false, closes := Function.update s.closes g .marked }
  | .drain g =>
    { s with
      pendingFu := fun _ => none
      removed := fun c => if s.Pending c then .taken (.close g) false else s.removed c
      closes := Function.update s.closes g .draining }
  | .leave g => { s with closes := Function.update s.closes g .returned }
  | .takeReply x =>
    match s.pendingFu x with
    | some c =>
      { s with
        pendingFu := Function.update s.pendingFu x none
        removed := Function.update s.removed c (.taken .handleRead false) }
    | none => s
  | .notify c =>
    match s.removed c with
    | .taken r _ =>
      { s with
        notified := Function.update s.notified c (s.notified c + 1)
        removed := Function.update s.removed c (.taken r true) }
    | _ => s
  | .release c =>
    { s with
      refCnt := Function.update s.refCnt c (s.refCnt c - 1)
      removed := Function.update s.removed c .released }

/-- The thread is at the place where it takes this step. -/
def Guard (s : ClosingClient κ γ) : PendingOp κ γ → Prop
  | .lock c => s.begins c = .idle ∧ s.outL = none
  | .check c => s.begins c = .locked
  | .insert c => s.begins c = .connected
  | .recheck c => s.begins c = .inserted
  | .withdraw c => s.begins c = .closedMeanwhile
  | .write c => s.begins c = .confirmed
  | .ret c => s.begins c = .written
  | .endRequest c => (s.begins c).Finished ∧ s.outL = some c
  | .drop c => s.begins c = .returned
  | .enter g => s.closes g = .idle
  | .setClosed g => s.closes g = .entered
  | .drain g => s.closes g = .marked
  | .leave g => s.closes g = .draining ∧ ∀ c n, s.removed c ≠ .taken (.close g) n
  | .takeReply x => s.pendingFu x ≠ none
  | .notify c => ∃ r, s.removed c = .taken r false
  | .release c => ∃ r, s.removed c = .taken r true

instance decidableGuard [Fintype κ] (s : ClosingClient κ γ) : ∀ a, Decidable (s.Guard a)
  | .lock _ | .endRequest _ => inferInstanceAs (Decidable (_ ∧ _))
  | .check _ | .insert _ | .recheck _ | .withdraw _ | .write _ | .ret _ | .drop _
  | .enter _ | .setClosed _ | .drain _ => inferInstanceAs (Decidable (_ = _))
  | .leave _ => inferInstanceAs (Decidable (_ ∧ ∀ _ _, _))
  | .takeReply _ => inferInstanceAs (Decidable (_ ≠ _))
  | .notify c => Removed.decidableTaken false (s.removed c)
  | .release c => Removed.decidableTaken true (s.removed c)

/-! ## Where the Futures are -/

/-- The call has set `status_` to `CLOSED`. -/
def HasMarked : CloseCall → Prop
  | .idle | .entered => False
  | _ => True

/-- The call has emptied `pending_fu_`. -/
def HasDrained : CloseCall → Prop
  | .draining | .returned => True
  | _ => False

/-- A Future that was made is in `pending_fu_` or was taken out once. One that `begin_request`
    has confirmed is in `pending_fu_` only as long as no `close` has emptied it. -/
structure Inv (s : ClosingClient κ γ) : Prop where
  table : ∀ x c, s.pendingFu x = some c → s.xid c = x ∧ (s.begins c).Created ∧ s.removed c = .no
  fresh : ∀ c, (s.begins c).Created → s.xid c < s.xidCounter
  distinct : ∀ c c', (s.begins c).Created → (s.begins c').Created → s.xid c = s.xid c' → c = c'
  untouched : ∀ c, ¬ (s.begins c).Created → s.removed c = .no
  located : ∀ c, (s.begins c).Created → s.Pending c ∨ s.removed c ≠ .no
  notified_eq : ∀ c, s.notified c = (s.removed c).notifications
  withdrawn : ∀ c, s.removed c = .withdrawn → s.begins c = .closedMeanwhile ∨ s.begins c = .withdrawn
  closed : ∀ g, HasMarked (s.closes g) → s.connected = false
  swept : ∀ c, s.Pending c → s.begins c ≠ .inserted → s.begins c ≠ .closedMeanwhile →
    ∀ g, ¬ HasDrained (s.closes g)
  owner : ∀ c g n, s.removed c = .taken (.close g) n → s.closes g = .draining

omit [DecidableEq κ] [DecidableEq γ] in
theorem Inv.init : Inv (init : ClosingClient κ γ) := by
  constructor <;> simp [ClosingClient.init, BeginCall.Created, Removed.notifications, HasMarked,
    Pending]

section Steps

variable {s : ClosingClient κ γ} {c : κ} {g : γ} {pc : BeginCall}

omit [DecidableEq γ] in
/-- A call moves without making a Future or taking one out. -/
theorem Inv.goto (h : Inv s) (hcreated : pc.Created ↔ (s.begins c).Created)
    (hwithdrawn : s.removed c = .withdrawn → pc = .closedMeanwhile ∨ pc = .withdrawn)
    (hswept : s.Pending c → pc ≠ .inserted → pc ≠ .closedMeanwhile →
      ∀ g, ¬ HasDrained (s.closes g)) : Inv (s.goto c pc) := by
  -- the Futures that exist are the same
  have hsame : ∀ c', ((s.goto c pc).begins c').Created ↔ (s.begins c').Created := by
    intro c'
    by_cases hc : c' = c
    · subst hc
      simpa [ClosingClient.goto] using hcreated
    · simp [ClosingClient.goto, Function.update_of_ne hc]
  refine { h with table := ?_, fresh := ?_, distinct := ?_, untouched := ?_, located := ?_,
                  withdrawn := ?_, swept := ?_ }
  · -- the table
    intro x c' hx
    obtain ⟨hxid, hc', hno⟩ := h.table x c' hx
    exact ⟨hxid, (hsame c').mpr hc', hno⟩
  · -- numbers below the counter
    intro c' hc'
    exact h.fresh c' ((hsame c').mp hc')
  · -- one number, one Future
    intro c₁ c₂ h₁ h₂
    exact h.distinct c₁ c₂ ((hsame c₁).mp h₁) ((hsame c₂).mp h₂)
  · -- a Future not made yet
    intro c' hc'
    exact h.untouched c' (fun hcr => hc' ((hsame c').mpr hcr))
  · -- a Future is in the table or was taken out
    intro c' hc'
    exact h.located c' ((hsame c').mp hc')
  · -- who has withdrawn
    intro c' hrem
    by_cases hc : c' = c
    · subst hc
      simpa [ClosingClient.goto] using hwithdrawn hrem
    · simpa [ClosingClient.goto, Function.update_of_ne hc] using h.withdrawn c' hrem
  · -- what is pending after a close
    intro c' hpend
    by_cases hc : c' = c
    · subst hc
      simpa [ClosingClient.goto] using hswept hpend
    · simpa [ClosingClient.goto, Function.update_of_ne hc] using h.swept c' hpend

omit [DecidableEq κ] [DecidableEq γ] in
/-- A Future that is on no list was not withdrawn. -/
theorem Inv.not_withdrawn (h : Inv s) (h₁ : s.begins c ≠ .closedMeanwhile)
    (h₂ : s.begins c ≠ .withdrawn) : s.removed c ≠ .withdrawn :=
  fun hrem => (h.withdrawn c hrem).elim h₁ h₂

omit [DecidableEq κ] [DecidableEq γ] in
/-- As long as `status_` is `CONNECTED`, no `close` has emptied `pending_fu_`. -/
theorem Inv.not_drained (h : Inv s) (hconn : s.connected = true) (g : γ) :
    ¬ HasDrained (s.closes g) := by
  intro hdrained
  have hmarked : HasMarked (s.closes g) := by
    cases hg : s.closes g <;> simp_all [HasMarked, HasDrained]
  have hclosed := h.closed g hmarked
  rw [hconn] at hclosed
  cases hclosed

omit [DecidableEq γ] in
/-- A call that has no Future yet. -/
theorem Inv.goto_early (h : Inv s) (hold : ¬ (s.begins c).Created) (hpc : ¬ pc.Created) :
    Inv (s.goto c pc) := by
  apply h.goto
  · exact iff_of_false hpc hold
  · intro hrem
    rw [h.untouched c hold] at hrem
    cases hrem
  · intro hpend
    exact absurd (h.table _ c hpend).2.1 hold

omit [DecidableEq γ] in
/-- A call whose Future was confirmed. -/
theorem Inv.goto_late (h : Inv s) (hold : (s.begins c).Created) (hpc : pc.Created)
    (h₁ : s.begins c ≠ .inserted) (h₂ : s.begins c ≠ .closedMeanwhile)
    (h₃ : s.begins c ≠ .withdrawn) : Inv (s.goto c pc) := by
  apply h.goto
  · exact iff_of_true hpc hold
  · intro hrem
    exact absurd hrem (h.not_withdrawn h₂ h₃)
  · intro hpend _ _
    exact h.swept c hpend h₁ h₂

/-- `if (status_ != CONNECTED)` after the Future was put into `pending_fu_` -/
theorem Inv.recheck (h : Inv s) (hc : s.begins c = .inserted) :
    Inv (s.effect (.recheck c)) := by
  have hcreated : (s.begins c).Created := by simp [hc, BeginCall.Created]
  unfold effect
  cases hconn : s.connected with
  | false =>
    simp only [Bool.false_eq_true, if_false]
    apply h.goto
    · exact iff_of_true trivial hcreated
    · intro _
      exact .inl rfl
    · intro _ _ hne
      exact absurd rfl hne
  | true =>
    simp only [if_true]
    apply h.goto
    · exact iff_of_true trivial hcreated
    · intro hrem
      exact absurd hrem (h.not_withdrawn (by simp [hc]) (by simp [hc]))
    · intro _ _ _
      exact h.not_drained hconn

/-- `pending_fu_[fu->xid_] = fu;` -/
theorem Inv.insert (h : Inv s) (hc : s.begins c = .connected) :
    Inv (s.effect (.insert c)) := by
  have hnew : ¬ (s.begins c).Created := by simp [hc, BeginCall.Created]
  -- the Futures in the table have other numbers
  have hfree : ∀ c', s.pendingFu s.xidCounter ≠ some c' := by
    intro c' hx
    obtain ⟨hxid, hcr, -⟩ := h.table _ c' hx
    exact absurd (h.fresh c' hcr) (by omega)
  constructor
  · intro x c' hx
    simp only [effect, ClosingClient.goto] at hx ⊢
    -- the new entry
    by_cases hxc : x = s.xidCounter
    · subst hxc
      obtain rfl : c = c' := by simpa using hx
      simp [BeginCall.Created, h.untouched c hnew]
    · -- an entry of before
      rw [Function.update_of_ne hxc] at hx
      obtain ⟨hxid, hcr, hno⟩ := h.table x c' hx
      have hne : c' ≠ c := fun hne => hnew (hne ▸ hcr)
      simp [Function.update_of_ne hne, hxid, hcr, hno]
  all_goals
    simp only [effect, ClosingClient.goto, Pending] at *
    have := h.fresh
    have := h.distinct
    have := h.untouched
    have := h.located
    have := h.notified_eq
    have := h.withdrawn
    have := h.swept
    grind [Function.update_apply, BeginCall.Created, Pending, h.closed, h.owner]

omit [DecidableEq γ] in
/-- Somebody takes the Future out of `pending_fu_` on his own. -/
theorem Inv.erase {x : Nat} (r : Removed γ) (h : Inv s) (hx : s.pendingFu x = some c)
    (hr : r ≠ .no) (hn : r.notifications = 0)
    (hw : r = .withdrawn → s.begins c = .closedMeanwhile)
    (ho : ∀ g n, r ≠ .taken (.close g) n) :
    Inv { s with pendingFu := Function.update s.pendingFu x none
                 removed := Function.update s.removed c r } := by
  obtain ⟨hxid, hcr, hno⟩ := h.table x c hx
  -- the other entries stay, because each Future is in the table under its own number
  have hother : ∀ x' c', Function.update s.pendingFu x none x' = some c' →
      s.pendingFu x' = some c' ∧ c' ≠ c := by
    intro x' c' hx'
    by_cases hne : x' = x
    · simp [hne] at hx'
    · rw [Function.update_of_ne hne] at hx'
      refine ⟨hx', ?_⟩
      rintro rfl
      exact hne ((h.table x' c' hx').1.symm.trans hxid)
  refine { h with table := ?_, untouched := ?_, located := ?_, notified_eq := ?_,
                  withdrawn := ?_, swept := ?_, owner := ?_ }
  · -- an entry that is left
    intro x' c' hx'
    obtain ⟨hold, hne⟩ := hother x' c' hx'
    simpa [Function.update_of_ne hne] using h.table x' c' hold
  · -- a Future that was not made is not the one taken out
    intro c' hc'
    have hne : c' ≠ c := fun hne => hc' (hne ▸ hcr)
    simpa [Function.update_of_ne hne] using h.untouched c' hc'
  · -- the one taken out is located with its remover now
    intro c' hc'
    by_cases hne : c' = c
    · right
      simpa [hne] using hr
    · have hxid' : s.xid c' ≠ x := fun hx' => hne (h.distinct c' c hc' hcr (hx'.trans hxid.symm))
      simpa [Pending, Function.update_of_ne hne, Function.update_of_ne hxid'] using h.located c' hc'
  · -- taking it out notifies nobody
    intro c'
    by_cases hne : c' = c
    · subst hne
      simp only [Function.update_self, hn, h.notified_eq c', hno]
      rfl
    · simpa [Function.update_of_ne hne] using h.notified_eq c'
  · -- only a call that saw the close withdraws
    intro c' hrem
    by_cases hne : c' = c
    · subst hne
      exact .inl (hw (by simpa using hrem))
    · exact h.withdrawn c' (by simpa [Function.update_of_ne hne] using hrem)
  · -- what is still pending was pending before
    intro c' hpend
    exact h.swept c' (hother _ c' hpend).1
  · -- no `close` is the remover here
    intro c' g n hrem
    by_cases hne : c' = c
    · subst hne
      exact absurd (by simpa using hrem) (ho g n)
    · exact h.owner c' g n (by simpa [Function.update_of_ne hne] using hrem)

/-- `pending_fu_.find(fu->xid_)`, `release` and `erase` of `begin_request` -/
theorem Inv.withdraw (h : Inv s) (hc : s.begins c = .closedMeanwhile) :
    Inv (s.effect (.withdraw c)) := by
  have hcreated : (s.begins c).Created := by simp [hc, BeginCall.Created]
  -- once the Future is out of `pending_fu_`, the call may return
  have hleave : ∀ s' : ClosingClient κ γ, Inv s' → s'.begins = s.begins → ¬ s'.Pending c →
      Inv (s'.goto c .withdrawn) := by
    intro s' h' hbegins hpend
    apply h'.goto
    · exact iff_of_true trivial (hbegins ▸ hcreated)
    · intro _
      exact .inr rfl
    · intro hpend'
      exact absurd hpend' hpend
  cases hx : s.pendingFu (s.xid c) with
  | none =>
    have hpend : ¬ s.Pending c := by simp [Pending, hx]
    simp only [effect, hx]
    exact { hleave s h rfl hpend with }
  | some c' =>
    -- the entry under this number is the Future of this call
    obtain ⟨hxid, hcr, -⟩ := h.table _ c' hx
    obtain rfl : c' = c := h.distinct c' c hcr hcreated hxid
    have herase := h.erase .withdrawn hx (by simp) rfl (fun _ => hc) (by simp)
    simp only [effect, hx]
    exact { hleave _ herase rfl (by simp [Pending]) with }

/-- `pending_fu_.clear();` -/
theorem Inv.drain (h : Inv s) (hg : s.closes g = .marked) : Inv (s.effect (.drain g)) := by
  have hmarked : ∀ g', HasMarked (Function.update s.closes g .draining g') →
      HasMarked (s.closes g') := by
    intro g' hm
    by_cases hne : g' = g
    · subst hne
      simp [hg, HasMarked]
    · simpa [Function.update_of_ne hne] using hm
  constructor
  · -- the table is empty
    intro x c' hx
    cases hx
  · exact h.fresh
  · exact h.distinct
  · -- a Future that was not made is not in the table
    intro c' hc'
    have hpend : ¬ s.Pending c' := fun hpend => hc' (h.table _ c' hpend).2.1
    simpa [effect, hpend] using h.untouched c' hc'
  · -- what was pending is now with `close`
    intro c' hc'
    right
    by_cases hpend : s.Pending c'
    · simp [effect, hpend]
    · simpa [effect, hpend] using (h.located c' hc').resolve_left hpend
  · -- nobody is notified yet
    intro c'
    by_cases hpend : s.Pending c'
    · have hno := (h.table _ c' hpend).2.2
      simp [effect, hpend, h.notified_eq c', hno, Removed.notifications]
    · simpa [effect, hpend] using h.notified_eq c'
  · -- `close` has withdrawn nothing
    intro c' hrem
    by_cases hpend : s.Pending c'
    · simp [effect, hpend] at hrem
    · exact h.withdrawn c' (by simpa [effect, hpend] using hrem)
  · intro g' hm
    exact h.closed g' (hmarked g' hm)
  · -- nothing is pending
    intro c' hpend
    cases hpend
  · -- this `close` is the owner of what it took
    intro c' g' n hrem
    by_cases hpend : s.Pending c'
    · obtain ⟨rfl, rfl⟩ : g = g' ∧ false = n := by simpa [effect, hpend] using hrem
      simp [effect]
    · have hold := h.owner c' g' n (by simpa [effect, hpend] using hrem)
      by_cases hne : g' = g
      · subst hne
        simp [effect]
      · simpa [effect, Function.update_of_ne hne] using hold

omit [DecidableEq κ] in
/-- A `close` call moves and leaves `pending_fu_` alone. -/
theorem Inv.gotoClose {pc : CloseCall} (h : Inv s)
    (hmarked : HasMarked pc → s.connected = false)
    (hdrained : HasDrained pc → HasDrained (s.closes g))
    (howner : ∀ c n, s.removed c = .taken (.close g) n → pc = .draining) :
    Inv { s with closes := Function.update s.closes g pc } := by
  refine { h with closed := ?_, swept := ?_, owner := ?_ }
  · intro g' hm
    by_cases hne : g' = g
    · subst hne
      exact hmarked (by simpa using hm)
    · exact h.closed g' (by simpa [Function.update_of_ne hne] using hm)
  · intro c' hpend h₁ h₂ g' hd
    have hold := h.swept c' hpend h₁ h₂ g'
    by_cases hne : g' = g
    · subst hne
      exact hold (hdrained (by simpa using hd))
    · exact hold (by simpa [Function.update_of_ne hne] using hd)
  · intro c' g' n hrem
    by_cases hne : g' = g
    · subst hne
      simpa using howner c' n hrem
    · simpa [Function.update_of_ne hne] using h.owner c' g' n hrem

omit [DecidableEq γ] in
/-- The remover of a Future goes on with it. -/
theorem Inv.advance {r : Remover γ} {n : Bool} (r' : Removed γ) (h : Inv s)
    (hc : s.removed c = .taken r n) (hr' : r' = .taken r true ∨ r' = .released) :
    Inv { s with notified := Function.update s.notified c 1
                 removed := Function.update s.removed c r' } := by
  -- what was taken out of the table is not in it
  have hpend : ∀ x, s.pendingFu x ≠ some c := by
    intro x hx
    have hno := (h.table x c hx).2.2
    rw [hc] at hno
    cases hno
  have hone : r'.notifications = 1 := by
    obtain rfl | rfl := hr' <;> rfl
  refine { h with table := ?_, untouched := ?_, located := ?_, notified_eq := ?_,
                  withdrawn := ?_, owner := ?_ }
  · -- the entries are of other Futures
    intro x c' hx
    have hne : c' ≠ c := fun hne => hpend x (hne ▸ hx)
    simpa [Function.update_of_ne hne] using h.table x c' hx
  · -- so are those that were not made
    intro c' hc'
    have hold := h.untouched c' hc'
    have hne : c' ≠ c := by
      rintro rfl
      rw [hc] at hold
      cases hold
    simpa [Function.update_of_ne hne] using hold
  · -- it stays with its remover, or is released
    intro c' hc'
    by_cases hne : c' = c
    · subst hne
      obtain rfl | rfl := hr' <;> simp
    · simpa [Pending, Function.update_of_ne hne] using h.located c' hc'
  · -- it is notified once now
    intro c'
    by_cases hne : c' = c
    · subst hne
      simp [hone]
    · simpa [Function.update_of_ne hne] using h.notified_eq c'
  · -- its remover is not the call itself
    intro c' hrem
    by_cases hne : c' = c
    · subst hne
      obtain rfl | rfl := hr' <;> simp at hrem
    · exact h.withdrawn c' (by simpa [Function.update_of_ne hne] using hrem)
  · -- the `close` that owns it is still the same
    intro c' g' n' hrem
    by_cases hne : c' = c
    · subst hne
      obtain rfl | rfl := hr'
      · obtain ⟨rfl, -⟩ : r = .close g' ∧ true = n' := by simpa using hrem
        exact h.owner c' g' n hc
      · simp at hrem
    · exact h.owner c' g' n' (by simpa [Function.update_of_ne hne] using hrem)

/-- **One step** keeps the invariant. -/
theorem Inv.effect {a : PendingOp κ γ} (h : Inv s) (hguard : s.Guard a) : Inv (s.effect a) := by
  cases a with
  | lock c =>
    -- `begin_request` up to its return
    have hgoto : Inv (s.goto c .locked) :=
      h.goto_early (by simp [hguard.1, BeginCall.Created]) id
    exact { hgoto with }
  | check c =>
    have hc : s.begins c = .locked := hguard
    apply h.goto_early
    · simp [hc, BeginCall.Created]
    · cases s.connected <;> simp [BeginCall.Created]
  | insert c => exact h.insert hguard
  | recheck c => exact h.recheck hguard
  | withdraw c => exact h.withdraw hguard
  | write c =>
    have hc : s.begins c = .confirmed := hguard
    have hgoto : Inv (s.goto c .written) :=
      h.goto_late (by simp [hc, BeginCall.Created]) trivial (by simp [hc]) (by simp [hc])
        (by simp [hc])
    exact { hgoto with }
  | ret c =>
    have hc : s.begins c = .written := hguard
    have hgoto : Inv (s.goto c .returned) :=
      h.goto_late (by simp [hc, BeginCall.Created]) trivial (by simp [hc]) (by simp [hc])
        (by simp [hc])
    exact { hgoto with }
  | endRequest c => exact { h with }
  | drop c =>
    have hc : s.begins c = .returned := hguard
    have hgoto : Inv (s.goto c .dropped) :=
      h.goto_late (by simp [hc, BeginCall.Created]) trivial (by simp [hc]) (by simp [hc])
        (by simp [hc])
    exact { hgoto with }
  -- a `close` that is not draining has no Future in its hands
  | enter g =>
    have hg : s.closes g = .idle := hguard
    apply h.gotoClose
    · exact False.elim
    · exact False.elim
    · intro c n hrem
      have hdraining := h.owner c g n hrem
      rw [hg] at hdraining
      cases hdraining
  | setClosed g =>
    have hg : s.closes g = .entered := hguard
    have hclosed : Inv { s with connected := false } := { h with closed := fun _ _ => rfl }
    apply hclosed.gotoClose
    · exact fun _ => rfl
    · exact False.elim
    · intro c n hrem
      have hdraining := h.owner c g n hrem
      rw [hg] at hdraining
      cases hdraining
  | drain g => exact h.drain hguard
  | leave g =>
    obtain ⟨hg, hempty⟩ := hguard
    apply h.gotoClose
    · exact fun _ => h.closed g (by simp [hg, HasMarked])
    · exact fun _ => by simp [hg, HasDrained]
    · intro c n hrem
      exact absurd hrem (hempty c n)
  | takeReply x =>
    -- `handle_read` takes an entry out
    obtain ⟨c, hx⟩ := Option.ne_none_iff_exists'.mp hguard
    simp only [ClosingClient.effect, hx]
    exact h.erase (.taken .handleRead false) hx (by simp) rfl (by simp) (by simp)
  | notify c =>
    -- whoever took it out goes on with it
    obtain ⟨r, hc⟩ := hguard
    have hzero : s.notified c = 0 := by simp [h.notified_eq c, hc, Removed.notifications]
    simp only [ClosingClient.effect, hc, hzero]
    exact h.advance _ hc (.inl rfl)
  | release c =>
    obtain ⟨r, hc⟩ := hguard
    have hone : s.notified c = 1 := by simp [h.notified_eq c, hc, Removed.notifications]
    have hadvance := h.advance .released hc (.inr rfl)
    -- the count of notifications does not change
    rw [← hone, Function.update_eq_self] at hadvance
    exact { hadvance with }

end Steps

/-! ## No request is left hanging -/

/-- Every call of `begin_request` and of `close` that was started has returned, and at least one
    call of `close` was. -/
structure Closed (s : ClosingClient κ γ) : Prop where
  begins : ∀ c, s.begins c = .idle ∨ (s.begins c).Finished
  closes : ∀ g, s.closes g = .idle ∨ s.closes g = .returned
  closed : ∃ g, s.closes g = .returned

/-- `handle_read` has taken the Future out of `pending_fu_` and has not called its `notify_ready`
    yet. -/
def InHandleRead (s : ClosingClient κ γ) (c : κ) : Prop :=
  s.removed c = .taken .handleRead false

omit [DecidableEq κ] [DecidableEq γ] in
/-- After a close, `pending_fu_` is empty. -/
theorem Inv.pendingFu_eq_none {s : ClosingClient κ γ} (h : Inv s) (hclosed : s.Closed) (x : Nat) :
    s.pendingFu x = none := by
  cases hx : s.pendingFu x with
  | none => rfl
  | some c =>
    exfalso
    obtain ⟨hxid, hcr, -⟩ := h.table x c hx
    obtain ⟨g, hg⟩ := hclosed.closed
    have hpend : s.Pending c := by rw [Pending, hxid, hx]
    -- a call that has returned has confirmed its Future, or withdrawn it
    have hfin : s.begins c ≠ .inserted ∧ s.begins c ≠ .closedMeanwhile := by
      obtain hidle | hfin := hclosed.begins c
      · simp [hidle]
      · constructor <;> intro hpc <;> simp [hpc, BeginCall.Finished] at hfin
    exact h.swept c hpend hfin.1 hfin.2 g (by simp [hg, HasDrained])

omit [DecidableEq κ] [DecidableEq γ] in
/-- After a close, a Future that was returned was notified once, or will be by `handle_read`. -/
theorem Inv.notified_once {s : ClosingClient κ γ} {c : κ} (h : Inv s) (hclosed : s.Closed)
    (hret : (s.begins c).Returned) :
    s.notified c = 1 ∨ s.InHandleRead c ∧ s.notified c = 0 := by
  have hcr : (s.begins c).Created := by
    cases hpc : s.begins c <;> simp_all [BeginCall.Returned, BeginCall.Created]
  have hno : s.removed c ≠ .no := by
    refine (h.located c hcr).resolve_left ?_
    rw [Pending, h.pendingFu_eq_none hclosed]
    simp
  have hcount := h.notified_eq c
  cases hrem : s.removed c with
  -- it was made and is not pending, so it was taken out
  | no => exact absurd hrem hno
  | taken r n =>
    rw [hrem] at hcount
    cases r with
    | handleRead =>
      -- between the erase and `notify_ready`
      cases n with
      | false => exact .inr ⟨hrem, hcount⟩
      | true => exact .inl hcount
    | close g =>
      -- a `close` that has returned has nothing left on its list
      have hdraining := h.owner c g n hrem
      obtain hidle | hreturned := hclosed.closes g
      · rw [hidle] at hdraining
        cases hdraining
      · rw [hreturned] at hdraining
        cases hdraining
  | released =>
    -- released means notified
    rw [hrem] at hcount
    exact .inl hcount
  | withdrawn =>
    -- a call that withdraws does not return its Future
    obtain hpc | hpc := h.withdrawn c hrem <;> simp [hpc, BeginCall.Returned] at hret

/-- **No request is left hanging**: when `close` and all `begin_request` calls have returned,
    `pending_fu_` is empty and every Future that was returned was notified exactly once, or is
    in the hands of `handle_read`, which has not notified it yet. -/
theorem no_request_left_hanging {as : List (PendingOp κ γ)} {s : ClosingClient κ γ}
    (hrun : Steps (Guarded Guard effect) init as s) (hclosed : s.Closed) :
    (∀ x, s.pendingFu x = none) ∧
    ∀ c, (s.begins c).Returned → s.notified c = 1 ∨ s.InHandleRead c ∧ s.notified c = 0 := by
  have h : Inv s := by
    apply hrun.guarded_invariant _ Inv.init
    intro s a h hguard
    exact h.effect hguard
  exact ⟨h.pendingFu_eq_none hclosed, fun c hret => h.notified_once hclosed hret⟩

/-- A request, and the steps of a `close` after it. -/
def requestThenClose : List (PendingOp Unit Unit) :=
  [.lock (), .check (), .insert (), .recheck (), .write (), .ret (), .endRequest (),
   .enter (), .setClosed (), .drain (), .notify (), .release (), .leave ()]

theorem no_request_left_hanging_requestThenClose :
    ((requestThenClose.foldl effect init : ClosingClient Unit Unit).notified ()) = 1 := by
  have hrun : Steps (Guarded Guard effect) init requestThenClose
      (requestThenClose.foldl effect init) := Steps.of_passes (by decide)
  have hclosed : Closed (requestThenClose.foldl effect init : ClosingClient Unit Unit) :=
    ⟨by decide, by decide, ⟨(), by decide⟩⟩
  have honce := (no_request_left_hanging hrun hclosed).2 () (by decide)
  exact honce.resolve_right (fun hread => absurd hread.2 (by decide))

/-- `handle_read` has found the Future when the Client is closed. -/
def replyThenClose : List (PendingOp Unit Unit) :=
  [.lock (), .check (), .insert (), .recheck (), .write (), .ret (), .endRequest (),
   .takeReply 0, .enter (), .setClosed (), .drain (), .leave ()]

/-- **A Future that is not notified yet** when `close` and `begin_request` have returned, because
    `handle_read` calls `notify_ready` after it released the lock of `pending_fu_`. -/
theorem not_notified_by_close :
    let s : ClosingClient Unit Unit := replyThenClose.foldl effect init
    Steps (Guarded Guard effect) init replyThenClose s ∧ s.Closed ∧
    (s.begins ()).Returned ∧ s.notified () = 0 := by
  refine ⟨Steps.of_passes (by decide), ⟨by decide, by decide, ⟨(), by decide⟩⟩, by decide,
    by decide⟩

/-! ## Reference counts -/

/-- The owners of a Future: `pending_fu_` or the remover's copy of its entry, and the caller of
    `begin_request`. -/
def owners (s : ClosingClient κ γ) (c : κ) : Nat :=
  (s.pendingFu (s.xid c) == some c).toNat + (s.removed c).owners + (s.begins c).owners

/-- Whoever took a Future out of `pending_fu_` does not release it before the `begin_request`
    that made it has its own reference, or has returned `nullptr`. -/
def Patient (s : ClosingClient κ γ) : PendingOp κ γ → Prop
  | .release c => (s.begins c).Finished
  | _ => True

instance decidablePatient (s : ClosingClient κ γ) : ∀ a, Decidable (s.Patient a)
  | .release c => inferInstanceAs (Decidable (s.begins c).Finished)
  | .lock _ | .check _ | .insert _ | .recheck _ | .withdraw _ | .write _ | .ret _ | .endRequest _
  | .drop _ | .enter _ | .setClosed _ | .drain _ | .leave _ | .takeReply _ | .notify _ =>
    isTrue trivial

/-- The count is right, and a Future that `begin_request` works on was not released. -/
structure CountOk (s : ClosingClient κ γ) (c : κ) : Prop where
  counted : s.refCnt c = s.owners c
  kept : (s.begins c).Created → ¬ (s.begins c).Finished →
    s.removed c ≠ .released ∧ s.removed c ≠ .withdrawn
  unused : s.usedFreed c = false

omit [DecidableEq γ] in
theorem CountOk.init (c : κ) : CountOk (init : ClosingClient κ γ) c := by
  constructor <;>
    simp [ClosingClient.init, owners, Removed.owners, BeginCall.owners, BeginCall.Created]

section RefSteps

variable {s s' : ClosingClient κ γ} {c c' : κ} {g : γ} {pc : BeginCall}

omit [DecidableEq γ] in
/-- **Frame**: the references of a Future that a step does not touch. -/
theorem CountOk.frame (h : CountOk s c) (href : s'.refCnt c = s.refCnt c)
    (hpend : s'.Pending c ↔ s.Pending c) (hrem : s'.removed c = s.removed c)
    (hbegins : s'.begins c = s.begins c) (hused : s'.usedFreed c = s.usedFreed c) :
    CountOk s' c := by
  constructor
  · have hbeq : (s'.pendingFu (s'.xid c) == some c) = (s.pendingFu (s.xid c) == some c) := by
      rw [Bool.eq_iff_iff, beq_iff_eq, beq_iff_eq]
      exact hpend
    simpa only [owners, href, hbeq, hrem, hbegins] using h.counted
  · simpa only [hrem, hbegins] using h.kept
  · simpa only [hused] using h.unused

omit [DecidableEq γ] in
/-- `begin_request` works on a Future that somebody owns. -/
theorem CountOk.refCnt_ne_zero (h : CountOk s c) (hinv : Inv s) (hcr : (s.begins c).Created)
    (hfin : ¬ (s.begins c).Finished) : s.refCnt c ≠ 0 := by
  obtain ⟨hreleased, hwithdrawn⟩ := h.kept hcr hfin
  rw [h.counted, owners]
  obtain hpend | hrem := hinv.located c hcr
  · rw [Pending] at hpend
    simp [hpend]
  · cases hc : s.removed c with
    | no => exact absurd hc hrem
    | taken r n => simp [Removed.owners]
    | released => exact absurd hc hreleased
    | withdrawn => exact absurd hc hwithdrawn

omit [DecidableEq γ] in
/-- The use of a Future that somebody owns goes unnoticed. -/
theorem use_eq_self (hc : s.refCnt c ≠ 0) : s.use c = s := by
  have hsame : Function.update s.usedFreed c (s.usedFreed c || s.refCnt c == 0) = s.usedFreed := by
    rw [beq_false_of_ne hc, Bool.or_false, Function.update_eq_self]
  rw [use, hsame]

omit [DecidableEq γ] in
/-- A call moves, and its caller gets or drops a reference. -/
theorem CountOk.gotoCount (n : Nat) (h : CountOk s c')
    (hn : n + (s.begins c).owners = s.refCnt c + pc.owners)
    (hkept : s.removed c ≠ .released ∧ s.removed c ≠ .withdrawn ∨ ¬ pc.Created ∨ pc.Finished) :
    CountOk ({ s with refCnt := Function.update s.refCnt c n }.goto c pc) c' := by
  by_cases hne : c' = c
  · subst hne
    constructor
    · have hcount := h.counted
      simp only [owners] at hcount
      simp only [owners, ClosingClient.goto, Function.update_self]
      omega
    · simp only [ClosingClient.goto, Function.update_self]
      intro hcr hfin
      obtain hkept | hkept | hkept := hkept
      · exact hkept
      · exact absurd hcr hkept
      · exact absurd hkept hfin
    · exact h.unused
  · apply h.frame <;> simp [ClosingClient.goto, Pending, Function.update_of_ne hne]

omit [DecidableEq γ] in
/-- A call moves and neither gets nor drops a reference. -/
theorem CountOk.goto (h : CountOk s c') (hpc : pc.owners = (s.begins c).owners)
    (hkept : s.removed c ≠ .released ∧ s.removed c ≠ .withdrawn ∨ ¬ pc.Created ∨ pc.Finished) :
    CountOk (s.goto c pc) c' := by
  have hcount := h.gotoCount (s.refCnt c) (by rw [hpc]) hkept
  rwa [Function.update_eq_self] at hcount

/-- `pending_fu_[fu->xid_] = fu;` puts the first reference into the table. -/
theorem CountOk.insert (h : CountOk s c') (hinv : Inv s) (hc : s.begins c = .connected) :
    CountOk (s.effect (.insert c)) c' := by
  by_cases hne : c' = c
  · subst hne
    have hno : s.removed c' = .no := hinv.untouched c' (by simp [hc, BeginCall.Created])
    constructor
    · simp [owners, effect, ClosingClient.goto, hno, Removed.owners, BeginCall.owners]
    · simp [effect, ClosingClient.goto, hno]
    · exact h.unused
  · -- the Futures in the table have other numbers
    have hpend : (s.effect (.insert c)).Pending c' ↔ s.Pending c' := by
      simp only [Pending, effect, ClosingClient.goto, Function.update_of_ne hne]
      by_cases hx : s.xid c' = s.xidCounter
      · rw [hx, Function.update_self]
        refine iff_of_false (by simp [Ne.symm hne]) (fun hpend => ?_)
        obtain ⟨hxid, hcr, -⟩ := hinv.table _ c' hpend
        exact absurd (hinv.fresh c' hcr) (by omega)
      · rw [Function.update_of_ne hx]
    apply h.frame _ hpend <;> simp [effect, ClosingClient.goto, Function.update_of_ne hne]

omit [DecidableEq γ] in
/-- The table's reference goes to whoever takes the Future out, or is dropped. -/
theorem CountOk.erase {x : Nat} (r : Removed γ) (h : CountOk s c')
    (hx : s.pendingFu x = some c) (hxid : s.xid c = x) (hno : s.removed c = .no)
    (hr : r = .withdrawn → (s.begins c).Finished) (hr' : r ≠ .released) :
    CountOk { s with pendingFu := Function.update s.pendingFu x none
                     refCnt := Function.update s.refCnt c (s.refCnt c - 1 + r.owners)
                     removed := Function.update s.removed c r } c' := by
  by_cases hne : c' = c
  · subst hne
    constructor
    · have hcount := h.counted
      simp only [owners, hxid, hx, hno, Removed.owners, beq_self_eq_true, Bool.toNat_true] at hcount
      simp only [owners, hxid, Function.update_self, hcount, Option.none_beq_some, Bool.toNat_false]
      omega
    · intro _ hfin
      simp only [Function.update_self]
      exact ⟨hr', fun hw => hfin (hr hw)⟩
    · exact h.unused
  · refine h.frame ?_ ?_ ?_ rfl rfl
    · simp [Function.update_of_ne hne]
    · simp only [Pending]
      by_cases hxc : s.xid c' = x
      · -- under this number the table has the Future of `c`
        simp [hxc, hx, Ne.symm hne]
      · rw [Function.update_of_ne hxc]
    · simp [Function.update_of_ne hne]

/-- `close` takes the table's references over. -/
theorem CountOk.drain (h : CountOk s c') (hinv : Inv s) : CountOk (s.effect (.drain g)) c' := by
  by_cases hpend : s.Pending c'
  · obtain ⟨-, -, hno⟩ := hinv.table _ c' hpend
    constructor
    · have hcount := h.counted
      rw [Pending] at hpend
      simp only [owners, hpend, hno, Removed.owners, beq_self_eq_true, Bool.toNat_true] at hcount
      simp [owners, effect, Pending, hpend, hcount, Removed.owners]
    · simp [effect, hpend]
    · exact h.unused
  · refine h.frame rfl ?_ ?_ rfl rfl
    · exact iff_of_false (by simp [Pending, effect]) hpend
    · simp [effect, hpend]

omit [DecidableEq γ] in
/-- The remover goes on with the Future that it owns. -/
theorem CountOk.advance {r : Remover γ} {n : Bool} (r' : Removed γ) (h : CountOk s c')
    (hc : s.removed c = .taken r n) (hr' : r' = .released → (s.begins c).Finished)
    (hr'' : r' ≠ .withdrawn) :
    CountOk { s with refCnt := Function.update s.refCnt c (s.refCnt c - 1 + r'.owners)
                     removed := Function.update s.removed c r' } c' := by
  by_cases hne : c' = c
  · subst hne
    constructor
    · have hcount := h.counted
      simp only [owners, hc, Removed.owners] at hcount
      simp only [owners, Function.update_self, hcount]
      omega
    · intro _ hfin
      simp only [Function.update_self]
      exact ⟨fun hrel => hfin (hr' hrel), hr''⟩
    · exact h.unused
  · apply h.frame <;> simp [Pending, Function.update_of_ne hne]

omit [DecidableEq γ] in
/-- A reference changes hands. -/
theorem CountOk.update_refCnt (h : CountOk s c) (hown : s.owners c ≠ 0) :
    Function.update s.refCnt c (s.refCnt c - 1 + 1) = s.refCnt := by
  have hpos : s.refCnt c - 1 + 1 = s.refCnt c := by
    have hcount := h.counted
    omega
  rw [hpos, Function.update_eq_self]

/-- **One step** of a patient run keeps the references counted. -/
theorem CountOk.effect {a : PendingOp κ γ} (h : ∀ c, CountOk s c) (hinv : Inv s)
    (hguard : s.Guard a) (hpatient : s.Patient a) (c' : κ) : CountOk (s.effect a) c' := by
  cases a with
  | lock c =>
    have hgoto : CountOk (s.goto c .locked) c' :=
      (h c').goto (by simp [hguard.1, BeginCall.owners]) (.inr (.inl id))
    exact { hgoto with }
  | check c =>
    have hc : s.begins c = .locked := hguard
    apply (h c').goto
    · cases s.connected <;> simp [hc, BeginCall.owners]
    · cases s.connected <;> simp [BeginCall.Created]
  -- the one reference is that of the table
  | insert c => exact (h c').insert hinv hguard
  | recheck c =>
    have hc : s.begins c = .inserted := hguard
    apply (h c').goto
    · cases s.connected <;> simp [hc, BeginCall.owners]
    · exact .inl ((h c).kept (by simp [hc, BeginCall.Created]) (by simp [hc, BeginCall.Finished]))
  | withdraw c =>
    have hc : s.begins c = .closedMeanwhile := hguard
    have hcr : (s.begins c).Created := by simp [hc, BeginCall.Created]
    -- a call that has not returned finds its Future alive
    have huse : s.use c = s := use_eq_self
      ((h c).refCnt_ne_zero hinv hcr (by simp [hc, BeginCall.Finished]))
    have hgoto : CountOk (s.goto c .withdrawn) c' :=
      (h c').goto (by simp [hc, BeginCall.owners]) (.inr (.inr trivial))
    cases hx : s.pendingFu (s.xid c) with
    | none => simpa only [ClosingClient.effect, hx, huse] using hgoto
    | some d =>
      -- the entry under this number is the Future of this call
      obtain ⟨hxid, hcr', hno⟩ := hinv.table _ d hx
      obtain rfl : d = c := hinv.distinct d c hcr' hcr hxid
      have hfin : ((s.goto d .withdrawn).begins d).Finished := by
        simp [ClosingClient.goto, BeginCall.Finished]
      simp only [ClosingClient.effect, hx, huse]
      exact hgoto.erase .withdrawn hx rfl hno (fun _ => hfin) (by simp)
  | write c =>
    have hc : s.begins c = .confirmed := hguard
    have hcr : (s.begins c).Created := by simp [hc, BeginCall.Created]
    have hfin : ¬ (s.begins c).Finished := by simp [hc, BeginCall.Finished]
    have huse : s.use c = s := use_eq_self ((h c).refCnt_ne_zero hinv hcr hfin)
    simp only [ClosingClient.effect, huse]
    exact (h c').goto (by simp [hc, BeginCall.owners]) (.inl ((h c).kept hcr hfin))
  | ret c =>
    -- the caller gets a reference of its own
    have hc : s.begins c = .written := hguard
    have huse : s.use c = s := use_eq_self ((h c).refCnt_ne_zero hinv
      (by simp [hc, BeginCall.Created]) (by simp [hc, BeginCall.Finished]))
    simp only [ClosingClient.effect, huse]
    exact (h c').gotoCount _ (by simp [hc, BeginCall.owners]) (.inr (.inr trivial))
  -- no count is touched
  | endRequest c => exact { h c' with }
  | drop c =>
    -- the caller had one to give back
    have hc : s.begins c = .returned := hguard
    have hpos : 1 ≤ s.refCnt c := by
      rw [(h c).counted, owners, hc]
      exact Nat.le_add_left _ _
    refine (h c').gotoCount _ ?_ (.inr (.inr trivial))
    simp only [hc, BeginCall.owners]
    omega
  | enter g => exact { h c' with }
  | setClosed g => exact { h c' with }
  -- the references of the table pass to `close`
  | drain g => exact (h c').drain hinv
  | leave g => exact { h c' with }
  | takeReply x =>
    obtain ⟨c, hx⟩ := Option.ne_none_iff_exists'.mp hguard
    obtain ⟨hxid, -, hno⟩ := hinv.table x c hx
    -- the reference of the table passes to `handle_read`
    have herase := (h c').erase (.taken .handleRead false) hx hxid hno (by simp) (by simp)
    have hkeep := (h c).update_refCnt (by simp [owners, hxid, hx])
    simp only [Removed.owners, hkeep] at herase
    simpa only [ClosingClient.effect, hx] using herase
  | notify c =>
    obtain ⟨r, hc⟩ := hguard
    have hadvance := (h c').advance (.taken r true) hc (by simp) (by simp)
    have hkeep := (h c).update_refCnt (by simp [owners, hc, Removed.owners])
    simp only [Removed.owners, hkeep] at hadvance
    simp only [ClosingClient.effect, hc]
    exact { hadvance with }
  | release c =>
    -- the remover gives its reference back
    obtain ⟨r, hc⟩ := hguard
    exact (h c').advance .released hc (fun _ => hpatient) (by simp)

end RefSteps

/-- **References are counted**: in every run in which no remover drops the table's reference
    before `begin_request` has its own, `refcnt_` of every Future is the number of its owners, and
    `begin_request` never uses a Future whose count is 0. -/
theorem references_counted_of_patient {as : List (PendingOp κ γ)} {s : ClosingClient κ γ}
    (hrun : Steps (Guarded (fun s a => s.Guard a ∧ s.Patient a) effect) init as s) (c : κ) :
    s.refCnt c = s.owners c ∧ s.usedFreed c = false := by
  have h : Inv s ∧ ∀ c, CountOk s c := by
    apply hrun.guarded_invariant _ ⟨Inv.init, CountOk.init⟩
    rintro s a ⟨hinv, hcount⟩ ⟨hguard, hpatient⟩
    exact ⟨hinv.effect hguard, CountOk.effect hcount hinv hguard hpatient⟩
  exact ⟨(h.2 c).counted, (h.2 c).unused⟩

theorem references_counted_requestThenClose :
    let s : ClosingClient Unit Unit := requestThenClose.foldl effect init
    s.refCnt () = s.owners () ∧ s.usedFreed () = false := by
  have hrun : Steps (Guarded (fun s a => Guard s a ∧ Patient s a) effect) init requestThenClose
      (requestThenClose.foldl effect init) := Steps.of_passes (by decide)
  exact references_counted_of_patient hrun ()

/-- A `close` between the second test of `status_` and the end of `begin_request`. -/
def closeInBetween : List (PendingOp Unit Unit) :=
  [.lock (), .check (), .insert (), .recheck (), .enter (), .setClosed (), .drain (), .notify (),
   .release (), .leave (), .write (), .ret ()]

/-- **A Future is used after it was freed**: `close` drops the only reference, and `begin_request`
    goes on to read `xid_` and to return the Future. -/
theorem freed_future_returned :
    let s : ClosingClient Unit Unit := closeInBetween.foldl effect init
    Steps (Guarded Guard effect) init closeInBetween s ∧
    ((closeInBetween.take 10).foldl effect init : ClosingClient Unit Unit).refCnt () = 0 ∧
    s.begins () = .returned ∧ s.usedFreed () = true := by
  exact ⟨Steps.of_passes (by decide), by decide, by decide, by decide⟩

end ClosingClient

end SimpleRpc.Rpc
