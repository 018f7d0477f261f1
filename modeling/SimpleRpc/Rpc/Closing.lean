import SimpleRpc.Lib.Machine
import SimpleRpc.Rpc.Buffer
import Mathlib.Logic.Function.Basic

/-!
# Closing a Connection of a Server

`ServerTcpConnection::close` may be called by the poll thread, in `handle_error`, and by `~Server`, for
the same connection and at the same time. The one that finds the connection in `sconns_` does all the
rest.

## Layers

- **Code**: `TcpConn` with the program counters of both callers, and a log of what was done to it
- **Invariant**: `TcpConn.OneCloser`, what was done is the beginning of what one caller does, and
  `TcpConn.Ok`, who refers to the connection

## Main results

- `Ok.win`, `Ok.remove`, `Ok.mark`, `Ok.closeFd`, `Ok.drop`: each step of the caller that has found the
  connection keeps the invariant
-/

namespace SimpleRpc.Rpc

open SimpleRpc.Lib

/-! ## One connection -/

/-- Who calls `ServerTcpConnection::close`. -/
inductive Caller where
  /-- the poll thread, in `handle_error` -/
  | poll
  /-- `~Server` -/
  | dtor
  deriving DecidableEq

/-- Where a `close` is. -/
inductive ClosePc where
  | entered
  /-- `status_ == CONNECTED` was found -/
  | tested
  /-- the connection was found in `sconns_` and erased -/
  | erased
  /-- `pollmgr_->remove(this)` has returned, and `sconns_l_` is free again -/
  | removed
  /-- `status_ = CLOSED;` was executed -/
  | marked
  /-- in front of `this->release();` -/
  | closedFd
  deriving DecidableEq

/-- What closing a connection means. -/
inductive CloseAct where
  /-- `server_->sconns_.erase(it);` -/
  | erase
  /-- `server_->pollmgr_->remove(this);` -/
  | remove
  /-- `::close(sock_);` -/
  | closeFd
  /-- `this->release();` -/
  | drop
  deriving DecidableEq

/-- Where the PollMgr has a Pollable. -/
inductive Polled where
  | apart
  /-- in `poll_set_` -/
  | registered
  /-- in `pending_remove_` -/
  | pending
  /-- removed and released -/
  | drained
  deriving DecidableEq

namespace Polled

/-- The references of the PollMgr. -/
def refs : Polled → Nat
  | .registered | .pending => 1
  | .apart | .drained => 0

/-- `PollMgr::remove` -/
def remove : Polled → Polled
  | .registered => .pending
  | polled => polled

@[simp] theorem refs_remove (polled : Polled) : polled.remove.refs = polled.refs := by
  cases polled <;> rfl

end Polled

/-- A ServerTcpConnection. -/
structure TcpConn where
  /-- `status_ == CLOSED` -/
  closed : Bool
  refCnt : Nat
  polled : Polled
  /-- in `server_->sconns_` -/
  listed : Bool
  closing : Caller → Option ClosePc
  /-- ghost: the references of handlers -/
  handlers : Nat
  /-- ghost: what was done to close it, and who has done it -/
  log : List (Caller × CloseAct)

namespace TcpConn

/-- Not constructed yet. -/
def blank : TcpConn where
  closed := false
  refCnt := 0
  polled := .apart
  listed := false
  closing _ := none
  handlers := 0
  log := []

/-- `new ServerTcpConnection(this, clnt_socket)`, `sconns_.insert(sconn);` -/
def fresh : TcpConn := { blank with refCnt := 1, listed := true }

/-- A `close` goes on, or returns. -/
def goto (c : TcpConn) (who : Caller) (pc : Option ClosePc) : TcpConn :=
  { c with closing := Function.update c.closing who pc }

/-- A `close` does one of the things that it means. -/
def acts (c : TcpConn) (who : Caller) (act : CloseAct) : TcpConn :=
  { c with log := c.log ++ [(who, act)] }

end TcpConn

/-! ## The invariant of a connection -/

/-- How much of closing is done when a `close` that has found the connection is here. -/
def closeDepth : Option ClosePc → Nat
  | some .erased => 1
  | some .removed | some .marked => 2
  | some .closedFd => 3
  | _ => 4

/-- All that closing means, done by one caller. -/
def closeCourse (who : Caller) : List (Caller × CloseAct) :=
  [(who, .erase), (who, .remove), (who, .closeFd), (who, .drop)]

namespace TcpConn

/-- Nothing was done yet, or one `close` has begun. -/
def OneCloser (c : TcpConn) : Prop :=
  (c.log = [] ∧ ∀ who, closeDepth (c.closing who) = 4) ∨
    ∃ who, c.log = (closeCourse who).take (closeDepth (c.closing who)) ∧
      ∀ other, other ≠ who → closeDepth (c.closing other) = 4

/-- The reference of `sconns_`, which the `close` that erases the connection takes over. -/
def own (c : TcpConn) : Nat :=
  if c.log.length = 4 then 0 else 1

/-- A connection, if it was constructed. -/
structure Ok (made : Prop) (c : TcpConn) : Prop where
  unmade : ¬ made → c = blank
  refs : made → c.refCnt = c.own + c.polled.refs + c.handlers
  oneCloser : c.OneCloser
  listed : c.listed = true ↔ made ∧ c.log = []
  polling : c.closing .poll ≠ none → c.polled.refs = 1

theorem ok_blank : (blank : TcpConn).Ok False where
  unmade _ := rfl
  refs h := h.elim
  oneCloser := .inl ⟨rfl, fun _ => rfl⟩
  listed := by simp [blank]
  polling h := absurd rfl h

theorem ok_fresh : (fresh : TcpConn).Ok True where
  unmade h := absurd trivial h
  refs _ := rfl
  oneCloser := .inl ⟨rfl, fun _ => rfl⟩
  listed := by simp [fresh, blank]
  polling h := absurd rfl h

section Closing

variable {c : TcpConn} {who : Caller} {pc : Option ClosePc}

@[simp] theorem goto_closing_self : (c.goto who pc).closing who = pc :=
  Function.update_self ..

theorem goto_closing_of_ne {other : Caller} (h : other ≠ who) :
    (c.goto who pc).closing other = c.closing other :=
  Function.update_of_ne h _ _

/-- A step of a `close` that does nothing to others. -/
theorem OneCloser.goto (h : c.OneCloser) (hpc : closeDepth pc = closeDepth (c.closing who)) :
    (c.goto who pc).OneCloser := by
  have hdepth : ∀ other, closeDepth ((c.goto who pc).closing other) =
      closeDepth (c.closing other) := by
    intro other
    by_cases hother : other = who
    · rw [hother, goto_closing_self, hpc]
    · rw [goto_closing_of_ne hother]
  obtain ⟨hlog, hnone⟩ | ⟨w, hlog, hothers⟩ := h
  · exact .inl ⟨hlog, fun other => (hdepth other).trans (hnone other)⟩
  · refine .inr ⟨w, ?_, fun other hne => (hdepth other).trans (hothers other hne)⟩
    rw [hdepth w]
    exact hlog

/-- The `close` that finds the connection. -/
theorem OneCloser.win (h : c.OneCloser) (hlog : c.log = []) (pc : Option ClosePc)
    (hpc : closeDepth pc = 1) : ((c.acts who .erase).goto who pc).OneCloser := by
  have hnone : ∀ other, closeDepth (c.closing other) = 4 := by
    obtain ⟨-, hnone⟩ | ⟨w, hw, hothers⟩ := h
    · exact hnone
    · -- a `close` that had begun would have left something behind
      rw [hlog] at hw
      cases hc : c.closing w with
      | none => simp [hc, closeDepth, closeCourse] at hw
      | some x => cases x <;> simp [hc, closeDepth, closeCourse] at hw
  refine .inr ⟨who, ?_, ?_⟩
  · rw [goto_closing_self, hpc]
    change c.log ++ [(who, .erase)] = _
    rw [hlog]
    rfl
  · intro other hne
    rw [goto_closing_of_ne hne]
    exact hnone other

/-- That `close` goes on. -/
theorem OneCloser.advance (h : c.OneCloser) {act : CloseAct}
    (hact : (closeCourse who)[closeDepth (c.closing who)]? = some (who, act))
    (hpc : closeDepth pc = closeDepth (c.closing who) + 1) :
    ((c.acts who act).goto who pc).OneCloser := by
  have hlt : closeDepth (c.closing who) ≠ 4 := by
    intro h4
    rw [h4] at hact
    cases hact
  obtain ⟨-, hnone⟩ | ⟨w, hlog, hothers⟩ := h
  · exact absurd (hnone who) hlt
  · obtain rfl : w = who := by
      by_contra hne
      exact hlt (hothers who (Ne.symm hne))
    refine .inr ⟨w, ?_, ?_⟩
    · rw [goto_closing_self, hpc]
      change c.log ++ [(w, act)] = _
      rw [hlog, List.take_add_one, hact]
      rfl
    · intro other hne
      rw [goto_closing_of_ne hne]
      exact hothers other hne

/-- What was done so far is the beginning of what closing means. -/
theorem OneCloser.log_begins (h : c.OneCloser) : ∃ who, c.log <+: closeCourse who := by
  obtain ⟨hlog, -⟩ | ⟨w, hlog, -⟩ := h
  · exact ⟨.poll, hlog ▸ List.nil_prefix⟩
  · exact ⟨w, hlog ▸ List.take_prefix _ _⟩

/-- All of it was done. -/
theorem OneCloser.log_full (h : c.OneCloser) (hlog : c.log.length = 4) :
    ∃ who, c.log = closeCourse who := by
  obtain ⟨w, hpre⟩ := h.log_begins
  exact ⟨w, hpre.eq_of_length hlog⟩

/-- The log of a `close` that goes on. -/
theorem OneCloser.log_length (h : c.OneCloser) (hpc : c.closing who = pc)
    (hlt : closeDepth pc < 4) : c.log.length = closeDepth pc := by
  obtain ⟨-, hnone⟩ | ⟨w, hlog, hothers⟩ := h
  · have hfour := hnone who
    rw [hpc] at hfour
    omega
  · obtain rfl : w = who := by
      by_contra hne
      have hfour := hothers who (Ne.symm hne)
      rw [hpc] at hfour
      omega
    rw [hlog, List.length_take, hpc]
    change min _ 4 = _
    omega

variable {made : Prop}

/-- Somebody calls `close`, or a `close` goes on without doing anything to others. -/
theorem Ok.goto (h : c.Ok made) (hm : made)
    (hpc : closeDepth pc = closeDepth (c.closing who))
    (hpoll : who = .poll → pc ≠ none → c.polled.refs = 1) : (c.goto who pc).Ok made where
  unmade hn := absurd hm hn
  refs := h.refs
  oneCloser := h.oneCloser.goto hpc
  listed := h.listed
  polling hne := by
    cases who with
    | poll => exact hpoll rfl (by simpa using hne)
    | dtor => exact h.polling (by simpa [TcpConn.goto] using hne)

/-- A `close` that goes on was called. -/
theorem Ok.made_of_closing {x : ClosePc} (h : c.Ok made) (hpc : c.closing who = some x) : made := by
  by_contra hn
  rw [h.unmade hn] at hpc
  cases hpc

/-- The call was made by the poll thread, or is none of its. -/
theorem Ok.polling_goto (h : c.Ok made) (hne : c.closing who ≠ none) {polled : Polled}
    (hpolled : polled.refs = c.polled.refs)
    (hnext : Function.update c.closing who pc .poll ≠ none) : polled.refs = 1 := by
  rw [hpolled]
  cases who with
  | poll => exact h.polling hne
  | dtor => exact h.polling (by simpa using hnext)

theorem Ok.win (h : c.Ok made) (hpc : c.closing who = some .tested) (hlisted : c.listed = true) :
    (({ c with listed := false }.acts who .erase).goto who (some .erased)).Ok made := by
  obtain ⟨hm, hlog⟩ := h.listed.mp hlisted
  have hwin : (({ c with listed := false }.acts who .erase).goto who (some .erased)).OneCloser :=
    OneCloser.win (c := { c with listed := false }) h.oneCloser hlog _ rfl
  refine ⟨fun hn => absurd hm hn, fun _ => ?_, hwin, ?_, ?_⟩
  · have hrefs := h.refs hm
    simpa [own, acts, TcpConn.goto, hlog] using hrefs
  · simp [acts, TcpConn.goto]
  · exact h.polling_goto (by simp [hpc]) rfl

theorem Ok.remove (h : c.Ok made) (hpc : c.closing who = some .erased) :
    (({ c with polled := c.polled.remove }.acts who .remove).goto who (some .removed)).Ok made := by
  have hm : made := h.made_of_closing hpc
  have hlen : c.log.length = 1 := h.oneCloser.log_length hpc (by decide)
  refine ⟨fun hn => absurd hm hn, fun _ => ?_, ?_, ?_, ?_⟩
  · have hrefs := h.refs hm
    simpa [own, acts, TcpConn.goto, hlen] using hrefs
  · exact OneCloser.advance (c := { c with polled := c.polled.remove }) h.oneCloser
      (by simp [hpc, closeDepth, closeCourse]) (by simp [hpc, closeDepth])
  · have hlisted := h.listed
    have hne : c.log ≠ [] := by
      intro hnil
      simp [hnil] at hlen
    simpa [acts, TcpConn.goto, hne] using hlisted
  · exact h.polling_goto (by simp [hpc]) (Polled.refs_remove _)

theorem Ok.mark (h : c.Ok made) (hpc : c.closing who = some .removed) :
    ({ c with closed := true }.goto who (some .marked)).Ok made := by
  have hm : made := h.made_of_closing hpc
  have hmarked : ({ c with closed := true } : TcpConn).Ok made :=
    ⟨fun hn => absurd hm hn, h.refs, h.oneCloser, h.listed, h.polling⟩
  apply hmarked.goto hm
  · simp [hpc, closeDepth]
  · rintro rfl -
    exact h.polling (by simp [hpc])

theorem Ok.closeFd (h : c.Ok made) (hpc : c.closing who = some .marked) :
    ((c.acts who .closeFd).goto who (some .closedFd)).Ok made := by
  have hm : made := h.made_of_closing hpc
  have hlen : c.log.length = 2 := h.oneCloser.log_length hpc (by decide)
  refine ⟨fun hn => absurd hm hn, fun _ => ?_, ?_, ?_, ?_⟩
  · have hrefs := h.refs hm
    simpa [own, acts, TcpConn.goto, hlen] using hrefs
  · exact h.oneCloser.advance (by simp [hpc, closeDepth, closeCourse]) (by simp [hpc, closeDepth])
  · have hlisted := h.listed
    have hne : c.log ≠ [] := by
      intro hnil
      simp [hnil] at hlen
    simpa [acts, TcpConn.goto, hne] using hlisted
  · exact h.polling_goto (by simp [hpc]) rfl

/-- The reference of `sconns_` is released. -/
theorem Ok.drop (h : c.Ok made) (hpc : c.closing who = some .closedFd) :
    0 < c.refCnt ∧
      ({ (c.acts who .drop).goto who none with refCnt := c.refCnt - 1 } : TcpConn).Ok made := by
  have hm : made := h.made_of_closing hpc
  have hlen : c.log.length = 3 := h.oneCloser.log_length hpc (by decide)
  have hrefs := h.refs hm
  have hown : c.own = 1 := by simp [own, hlen]
  refine ⟨by omega, fun hn => absurd hm hn, fun _ => ?_, ?_, ?_, ?_⟩
  · simp [own, acts, TcpConn.goto, hlen]
    omega
  · have hdone : ((c.acts who .drop).goto who none).OneCloser :=
      h.oneCloser.advance (by simp [hpc, closeDepth, closeCourse]) (by simp [hpc, closeDepth])
    exact hdone
  · have hlisted := h.listed
    have hne : c.log ≠ [] := by
      intro hnil
      simp [hnil] at hlen
    simpa [acts, TcpConn.goto, hne] using hlisted
  · exact h.polling_goto (by simp [hpc]) rfl

end Closing

end TcpConn

end SimpleRpc.Rpc
