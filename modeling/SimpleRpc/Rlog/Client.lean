import SimpleRpc.Rlog.LogService

/-!
# The Log Client (`rlog/rlog.cc`, `rlog/rlog.h`)

`RLog` has static members only. `init` makes a connection to the log server, `finalize` gives it up,
and so does a message that cannot be sent; without a connection messages are printed locally. After
`finalize`, `init` may be called again: each connection is a session of its own.

## Layers

- **Code**: `RLogStatic.init`, `RLogStatic.doFinalize`, `RLogStatic.logV`, `RLogStatic.aggregateQps`,
  each with `mutex_s`
- **Abstract**: `Ledger`, the objects of one kind that were made and dropped
- **Invariant**: `RLogStatic.Inv`

## Main results

- `RLogStatic.sessions_numbered`: what a session sends is `RLog.sent`, under one name, up to its end
- `RLogStatic.finalize_drops`: after `finalize` every object that was ever made was dropped once

## Model

- `accepted` says whether the stub has returned a `Future`, `connected` whether there is an address
  and `connect` has returned 0
- a name is `my_ident`, or what `init` makes of the host and the process; a message is what
  `vsnprintf` makes of the format and its arguments
- `msg_counter_s` is an `Int`: a session has fewer than 2^63 messages
-/

namespace SimpleRpc.Rlog

/-! ## Objects -/

/-- The objects of one kind: how many were made, and which of them were dropped. -/
structure Ledger where
  made : Nat
  dropped : List Nat

namespace Ledger

def empty : Ledger := ⟨0, []⟩

/-- A new object, whose name is `made`. -/
def make (l : Ledger) : Ledger := { l with made := l.made + 1 }

/-- `delete` or `release`, unless the pointer is null -/
def drop (l : Ledger) (p : Option Nat) : Ledger := { l with dropped := l.dropped ++ p.toList }

/-- Every object was dropped once, or is the one that is held. -/
def Balanced (l : Ledger) (held : Option Nat) : Prop :=
  (l.dropped ++ held.toList).Perm (List.range l.made)

variable {l : Ledger}

theorem balanced_empty : empty.Balanced none := .refl _

theorem Balanced.make (h : l.Balanced none) : l.make.Balanced (some l.made) := by
  rw [Balanced, Ledger.make, List.range_succ]
  rw [Balanced, Option.toList_none, List.append_nil] at h
  exact h.append_right _

theorem Balanced.drop {p : Option Nat} (h : l.Balanced p) : (l.drop p).Balanced none := by
  rw [Balanced, Ledger.drop, Option.toList_none, List.append_nil]
  exact h

theorem Balanced.dropped_perm (h : l.Balanced none) : l.dropped.Perm (List.range l.made) := by
  rwa [Balanced, Option.toList_none, List.append_nil] at h

end Ledger

/-! ## The code -/

/-- The static members of `class RLog`. -/
structure RLogStatic where
  /-- `my_ident_s`: the copy, and its text -/
  myIdent : Option (Nat × Source)
  /-- `rp_s`: the proxy, and its client -/
  rp : Option (Nat × Nat)
  /-- `cl_s` -/
  cl : Option Nat
  /-- `buf_s` and `buf_len_s` -/
  buf : Option (Nat × Nat)
  /-- `poll_s` -/
  poll : Option Nat
  msgCounter : Int
  idents : Ledger
  proxies : Ledger
  clients : Ledger
  bufs : Ledger
  polls : Ledger
  /-- ghost: the calls of `async_log` that were accepted, with the client -/
  wire : List (Nat × Option Source × LogPiece)
  /-- ghost: those of `async_aggregate_qps` -/
  reported : List (Nat × List UInt8 × Int32)
  /-- ghost: the calls of `LOG_INFO` in `log_v` -/
  printed : List (Int32 × List UInt8)

/-- The calls, with what the connection does. -/
inductive RLogCall where
  | init (ident : Source) (connected : Bool)
  | finalize
  | logV (level : Int32) (message : List UInt8) (accepted : Bool)
  | aggregateQps (metric : List UInt8) (increment : Int32) (accepted : Bool)

namespace RLogStatic

/-- Before the first call. -/
def start : RLogStatic :=
  ⟨none, none, none, none, none, 0, .empty, .empty, .empty, .empty, .empty, [], [], []⟩

/-- `RLog::do_finalize` -/
def doFinalize (s : RLogStatic) : RLogStatic :=
  { s with
    myIdent := none, idents := s.idents.drop (s.myIdent.map Prod.fst)
    cl := none, clients := s.clients.drop s.cl
    rp := none, proxies := s.proxies.drop (s.rp.map Prod.fst)
    buf := none, bufs := s.bufs.drop (s.buf.map Prod.fst)
    poll := none, polls := s.polls.drop s.poll }

/-- `new PollMgr`, unless there is one -/
def makePoll (s : RLogStatic) : RLogStatic :=
  match s.poll with
  | some _ => s
  | none => { s with poll := some s.polls.made, polls := s.polls.make }

/-- `RLog::init`; `connected` is false as well when there is no address. -/
def init (s : RLogStatic) (ident : Source) (connected : Bool) : RLogStatic :=
  if s.cl = none then
    let s := { s with myIdent := some (s.idents.made, ident), idents := s.idents.make }
    let s := s.makePoll
    let s := { s with cl := some s.clients.made, clients := s.clients.make }
    if connected then
      { s with rp := s.cl.map fun c => (s.proxies.made, c), proxies := s.proxies.make, msgCounter := 0 }
    else s.doFinalize
  else s

/-- The buffer of `log_v` for a text of `cnt` bytes. -/
def makeBuf (s : RLogStatic) (cnt : Nat) : RLogStatic :=
  let s := match s.buf with
    | some _ => s
    | none => { s with buf := some (s.bufs.made, 8192), bufs := s.bufs.make }
  { s with buf := s.buf.map fun (p, len) => (p, if cnt ≥ len - 1 then cnt + 16 else len) }

/-- `RLog::log_v` -/
def logV (s : RLogStatic) (level : Int32) (message : List UInt8) (accepted : Bool) : RLogStatic :=
  let s := s.makeBuf message.length
  let s := { s with printed := s.printed ++ [(level, message)] }
  match s.rp with
  | none => s
  | some (_, c) =>
    let msgId := s.msgCounter
    let s := { s with msgCounter := s.msgCounter + 1 }
    if accepted then
      { s with wire := s.wire ++ [(c, s.myIdent.map Prod.snd, ⟨msgId, level, message⟩)] }
    else s.doFinalize

/-- `RLog::aggregate_qps` -/
def aggregateQps (s : RLogStatic) (metric : List UInt8) (increment : Int32) (accepted : Bool) : RLogStatic :=
  match s.rp with
  | none => s
  | some (_, c) =>
    if accepted then { s with reported := s.reported ++ [(c, metric, increment)] } else s.doFinalize

def step (s : RLogStatic) : RLogCall → RLogStatic
  | .init ident connected => s.init ident connected
  | .finalize => s.doFinalize
  | .logV level message accepted => s.logV level message accepted
  | .aggregateQps metric increment accepted => s.aggregateQps metric increment accepted

/-- The calls of all threads, in the order in which they take `mutex_s`. -/
def run (calls : List RLogCall) : RLogStatic := calls.foldl step start

/-- What was sent by a client. -/
def sentBy (s : RLogStatic) (c : Nat) : List (Option Source × LogPiece) :=
  (s.wire.filter fun entry => entry.1 = c).map Prod.snd

/-! ## The invariant -/

/-- What client `c` has sent is what one session sends, and it is the current one if `c` is held. -/
def Session (s : RLogStatic) (c : Nat) : Prop :=
  ∃ ident msgs, s.sentBy c = (RLog.sent msgs).map (fun piece => (some ident, piece)) ∧
    (∀ p, s.rp = some (p, c) → s.myIdent.map Prod.snd = some ident ∧ s.msgCounter = msgs.length)

/-- The pointers are set and cleared together; a proxy is only there while the connection is. -/
inductive Pointers : RLogStatic → Prop
  | clear {s : RLogStatic} (hident : s.myIdent = none) (hcl : s.cl = none) (hrp : s.rp = none)
      (hpoll : s.poll = none) : Pointers s
  | set {s : RLogStatic} {ident : Nat × Source} {c p q : Nat} (hident : s.myIdent = some ident)
      (hcl : s.cl = some c) (hrp : s.rp = some (p, c)) (hpoll : s.poll = some q) : Pointers s

/-- What was made was dropped, or a pointer holds it. -/
structure Ledgers (s : RLogStatic) : Prop where
  idents : s.idents.Balanced (s.myIdent.map Prod.fst)
  clients : s.clients.Balanced s.cl
  proxies : s.proxies.Balanced (s.rp.map Prod.fst)
  bufs : s.bufs.Balanced (s.buf.map Prod.fst)
  polls : s.polls.Balanced s.poll

structure Inv (s : RLogStatic) : Prop where
  pointers : s.Pointers
  ledgers : s.Ledgers
  sessions : ∀ c, s.Session c
  /-- nothing was sent by a client that is not made yet -/
  fresh : ∀ entry ∈ s.wire, entry.1 < s.clients.made

variable {s : RLogStatic}

theorem Pointers.of_eq {s' : RLogStatic} (h : s.Pointers) (hident : s'.myIdent = s.myIdent)
    (hcl : s'.cl = s.cl) (hrp : s'.rp = s.rp) (hpoll : s'.poll = s.poll) : s'.Pointers := by
  cases h with
  | clear h₁ h₂ h₃ h₄ =>
    exact .clear (hident.trans h₁) (hcl.trans h₂) (hrp.trans h₃) (hpoll.trans h₄)
  | set h₁ h₂ h₃ h₄ =>
    exact .set (hident.trans h₁) (hcl.trans h₂) (hrp.trans h₃) (hpoll.trans h₄)

theorem inv_start : start.Inv where
  pointers := .clear rfl rfl rfl rfl
  ledgers := ⟨.refl _, .refl _, .refl _, .refl _, .refl _⟩
  sessions := fun _ => ⟨[], [], rfl, nofun⟩
  fresh := nofun

theorem Session.of_rp_none {c : Nat} (h : s.Session c) {s' : RLogStatic} (hwire : s'.wire = s.wire)
    (hrp : s'.rp = none) : s'.Session c := by
  obtain ⟨ident, msgs, hsent, -⟩ := h
  refine ⟨ident, msgs, ?_, fun p hp => ?_⟩
  · rw [sentBy, hwire]
    exact hsent
  · rw [hrp] at hp
    cases hp

/-- A client that is not made yet has sent nothing. -/
theorem Inv.sentBy_fresh (h : s.Inv) : s.sentBy s.clients.made = [] := by
  rw [sentBy, List.map_eq_nil_iff, List.filter_eq_nil_iff]
  intro entry hentry heq
  have hlt := h.fresh entry hentry
  rw [decide_eq_true_eq] at heq
  omega

/-! ### `init` and `finalize` -/

theorem Ledgers.doFinalize (h : s.Ledgers) : s.doFinalize.Ledgers where
  idents := h.idents.drop
  clients := h.clients.drop
  proxies := h.proxies.drop
  bufs := h.bufs.drop
  polls := h.polls.drop

theorem Inv.doFinalize (h : s.Inv) : s.doFinalize.Inv where
  pointers := .clear rfl rfl rfl rfl
  ledgers := h.ledgers.doFinalize
  sessions := fun c => (h.sessions c).of_rp_none rfl rfl
  fresh := h.fresh

/-- `init` has made everything but the connection. -/
theorem Ledgers.opening (h : s.Ledgers) (hident : s.myIdent = none) (hcl : s.cl = none)
    (hpoll : s.poll = none) (ident : Source) :
    Ledgers { s with
      myIdent := some (s.idents.made, ident), idents := s.idents.make
      poll := some s.polls.made, polls := s.polls.make
      cl := some s.clients.made, clients := s.clients.make } where
  idents := Ledger.Balanced.make (by simpa [hident] using h.idents)
  clients := Ledger.Balanced.make (hcl ▸ h.clients)
  proxies := h.proxies
  bufs := h.bufs
  polls := Ledger.Balanced.make (hpoll ▸ h.polls)

theorem Inv.init (h : s.Inv) (ident : Source) (connected : Bool) : (s.init ident connected).Inv := by
  cases h.pointers with
  | set hident hcl hrp hpoll =>
    -- `init` has been called: nothing happens
    rw [RLogStatic.init, hcl, if_neg (by nofun)]
    exact h
  | clear hident hcl hrp hpoll =>
    have hopening := h.ledgers.opening hident hcl hpoll ident
    have hless : ∀ entry ∈ s.wire, entry.1 < s.clients.made + 1 := by
      intro entry hentry
      exact Nat.lt_succ_of_lt (h.fresh entry hentry)
    simp only [RLogStatic.init, makePoll, hcl, hpoll, if_true]
    split
    · -- a new session, of a client that has sent nothing
      refine ⟨.set rfl rfl rfl rfl, ?_, fun c => ?_, hless⟩
      · exact { hopening with proxies := Ledger.Balanced.make (by simpa [hrp] using h.ledgers.proxies) }
      · -- the new client has sent nothing
        by_cases hc : c = s.clients.made
        · subst hc
          exact ⟨ident, [], h.sentBy_fresh, fun _ _ => ⟨rfl, rfl⟩⟩
        · -- the older ones have no proxy any more
          obtain ⟨ident', msgs, hsent, -⟩ := h.sessions c
          refine ⟨ident', msgs, hsent, fun p hp => ?_⟩
          cases hp
          exact absurd rfl hc
    · -- the connection failed, and everything is dropped
      exact ⟨.clear rfl rfl rfl rfl, hopening.doFinalize,
        fun c => (h.sessions c).of_rp_none rfl rfl, hless⟩

/-! ### Messages -/

/-- `buf_s` is not one of the pointers of the connection. -/
theorem Inv.set_buf (h : s.Inv) {buf : Option (Nat × Nat)} {bufs : Ledger}
    (hbufs : bufs.Balanced (buf.map Prod.fst)) : Inv { s with buf, bufs } where
  pointers := h.pointers.of_eq rfl rfl rfl rfl
  ledgers := { h.ledgers with bufs := hbufs }
  sessions := h.sessions
  fresh := h.fresh

theorem Inv.makeBuf (h : s.Inv) (cnt : Nat) : (s.makeBuf cnt).Inv := by
  have hbufs := h.ledgers.bufs
  rw [RLogStatic.makeBuf]
  cases hbuf : s.buf with
  | some buf =>
    rw [hbuf] at hbufs
    exact h.set_buf (by simpa [hbuf] using hbufs)
  | none =>
    rw [hbuf] at hbufs
    exact h.set_buf hbufs.make

/-- `verify(cnt < buf_len_s - 1)` -/
theorem makeBuf_fits (s : RLogStatic) (cnt : Nat) :
    ∃ p len, (s.makeBuf cnt).buf = some (p, len) ∧ cnt < len - 1 := by
  have hfits : ∀ len : Nat, cnt < (if cnt ≥ len - 1 then cnt + 16 else len) - 1 := by
    intro len
    split <;> omega
  rw [makeBuf]
  cases hbuf : s.buf with
  | some buf => exact ⟨buf.1, _, by simp [hbuf], hfits buf.2⟩
  | none => exact ⟨s.bufs.made, _, rfl, hfits 8192⟩

theorem Inv.set_printed (h : s.Inv) (printed : List (Int32 × List UInt8)) :
    Inv { s with printed } where
  pointers := h.pointers.of_eq rfl rfl rfl rfl
  ledgers := { h.ledgers with }
  sessions := h.sessions
  fresh := h.fresh

/-- The next message of a session has the next number. -/
theorem sent_concat (msgs : List (Int32 × List UInt8)) (msg : Int32 × List UInt8) :
    RLog.sent (msgs ++ [msg]) = RLog.sent msgs ++ [⟨msgs.length, msg.1, msg.2⟩] := by
  have hfrom : ∀ counter : Int, RLog.logV counter (msgs ++ [msg]) =
      RLog.logV counter msgs ++ [⟨counter + msgs.length, msg.1, msg.2⟩] := by
    induction msgs with
    | nil => exact fun counter => by simp [RLog.logV]
    | cons first msgs ih =>
      intro counter
      rw [List.cons_append, RLog.logV, ih, RLog.logV, List.cons_append, List.length_cons]
      congr 4
      omega
  rw [RLog.sent, hfrom 0, Int.zero_add]
  rfl

theorem sentBy_concat (s : RLogStatic) (c : Nat) (entry : Nat × Option Source × LogPiece) :
    sentBy { s with wire := s.wire ++ [entry] } c =
      if entry.1 = c then s.sentBy c ++ [entry.2] else s.sentBy c := by
  rw [sentBy, List.filter_append, List.map_append]
  by_cases hc : entry.1 = c
  · simp [hc, sentBy]
  · simp [hc, sentBy]

theorem Inv.send (h : s.Inv) {p c : Nat} (hrp : s.rp = some (p, c)) (level : Int32)
    (message : List UInt8) :
    Inv { s with
      msgCounter := s.msgCounter + 1
      wire := s.wire ++ [(c, s.myIdent.map Prod.snd, ⟨s.msgCounter, level, message⟩)] } := by
  obtain ⟨ident, msgs, hsent, hcurrent⟩ := h.sessions c
  obtain ⟨hident, hcounter⟩ := hcurrent p hrp
  have hcl : s.cl = some c := by
    cases h.pointers with
    | clear _ _ hnone _ =>
      rw [hrp] at hnone
      cases hnone
    | set _ hcl hsome _ =>
      rw [hrp] at hsome
      cases hsome
      exact hcl
  refine ⟨h.pointers.of_eq rfl rfl rfl rfl, { h.ledgers with }, fun c' => ?_,
    fun entry hentry => ?_⟩
  · -- the messages of this client are numbered on
    by_cases hc : c = c'
    · subst hc
      refine ⟨ident, msgs ++ [(level, message)], ?_, fun p' _ => ⟨hident, ?_⟩⟩
      · refine (sentBy_concat s c _).trans ?_
        rw [if_pos rfl, hsent, hident, sent_concat, List.map_append, hcounter]
        rfl
      · rw [List.length_append, hcounter]
        rfl
    · -- those of the others stay
      obtain ⟨ident', msgs', hsent', -⟩ := h.sessions c'
      refine ⟨ident', msgs', ?_, fun p' hp' => ?_⟩
      · refine (sentBy_concat s c' _).trans ?_
        rw [if_neg hc, hsent']
      · rw [hrp] at hp'
        cases hp'
        exact absurd rfl hc
  · -- only clients that were made have sent
    obtain hentry | hentry := List.mem_append.mp hentry
    · exact h.fresh entry hentry
    · rw [List.mem_singleton.mp hentry]
      have hmem : c ∈ List.range s.clients.made := by
        rw [← h.ledgers.clients.mem_iff, hcl]
        simp
      exact List.mem_range.mp hmem

theorem Inv.logV (h : s.Inv) (level : Int32) (message : List UInt8) (accepted : Bool) :
    (s.logV level message accepted).Inv := by
  have hbuf := (h.makeBuf message.length).set_printed
    ((s.makeBuf message.length).printed ++ [(level, message)])
  rw [RLogStatic.logV]
  dsimp only
  split
  · exact hbuf
  · rename_i p c hrp
    split
    · exact hbuf.send hrp level message
    · -- the number is used up with the session
      refine ⟨.clear rfl rfl rfl rfl, Ledgers.doFinalize { hbuf.ledgers with },
        fun c => ?_, hbuf.fresh⟩
      exact (hbuf.sessions c).of_rp_none rfl rfl

theorem Inv.aggregateQps (h : s.Inv) (metric : List UInt8) (increment : Int32) (accepted : Bool) :
    (s.aggregateQps metric increment accepted).Inv := by
  rw [RLogStatic.aggregateQps]
  split
  · exact h
  · split
    · exact ⟨h.pointers.of_eq rfl rfl rfl rfl, { h.ledgers with }, h.sessions, h.fresh⟩
    · exact h.doFinalize

theorem Inv.step (h : s.Inv) (call : RLogCall) : (s.step call).Inv := by
  cases call with
  | init ident connected => exact h.init ident connected
  | finalize => exact h.doFinalize
  | logV level message accepted => exact h.logV level message accepted
  | aggregateQps metric increment accepted => exact h.aggregateQps metric increment accepted

theorem inv_run (calls : List RLogCall) : (run calls).Inv := by
  induction calls using List.reverseRecOn with
  | nil => exact inv_start
  | append_singleton calls call ih =>
    rw [run, List.foldl_append]
    exact ih.step call

/-! ## Sessions -/

/-- **Sessions**: whatever the calls were and whenever the connection failed, what a client has sent
    are messages numbered from zero without a gap, all under one name. -/
theorem sessions_numbered (calls : List RLogCall) (c : Nat) :
    ∃ ident msgs, (run calls).sentBy c = (RLog.sent msgs).map fun piece => (some ident, piece) := by
  obtain ⟨ident, msgs, hsent, -⟩ := (inv_run calls).sessions c
  exact ⟨ident, msgs, hsent⟩

/-- **Nothing leaks**: after `finalize` all that was ever made, in whatever calls, was dropped
    exactly once. -/
theorem finalize_drops (calls : List RLogCall) :
    let s := run (calls ++ [.finalize])
    s.idents.dropped.Perm (List.range s.idents.made) ∧
      s.clients.dropped.Perm (List.range s.clients.made) ∧
      s.proxies.dropped.Perm (List.range s.proxies.made) ∧
      s.bufs.dropped.Perm (List.range s.bufs.made) ∧
      s.polls.dropped.Perm (List.range s.polls.made) := by
  have hrun : run (calls ++ [.finalize]) = (run calls).doFinalize := by
    rw [run, List.foldl_append]
    rfl
  dsimp only
  rw [hrun]
  have hledgers := (inv_run calls).ledgers.doFinalize
  exact ⟨Ledger.Balanced.dropped_perm hledgers.idents, Ledger.Balanced.dropped_perm hledgers.clients,
    Ledger.Balanced.dropped_perm hledgers.proxies, Ledger.Balanced.dropped_perm hledgers.bufs,
    Ledger.Balanced.dropped_perm hledgers.polls⟩

/-- Two sessions under one name: each starts from zero. -/
example : (run [.init [65] true, .logV 3 [1] true, .logV 3 [2] true, .finalize,
    .init [65] true, .logV 3 [3] true]).wire =
      [(0, some [65], ⟨0, 3, [1]⟩), (0, some [65], ⟨1, 3, [2]⟩), (1, some [65], ⟨0, 3, [3]⟩)] := by
  decide

end RLogStatic

end SimpleRpc.Rlog
