import SimpleRpc.Rpc.Client

/-!
# Connecting a Client Again

`Client::connect` only asks that the Client is not connected, so that a Client whose connection
broke can be connected again. `close` and `connect` leave `in_`, `out_`, `bmark_` and the write
counter of `out_` as they are. This file says when a new connection starts clean nevertheless.

## Layers

- **Code**: `ReconnectingClient.step`, the steps of `Client` with their tests of `status_`, and
  `connect` and `close`
- **System**: `ReconnectingClient.Next`, any interleaving of these
- **Invariant**: `ReconnectingClient.Inv`, that of `Client` for the current connection

## Main results

- `Client.Inv.parse_reads`: a round of the frame loop, whatever the peer sends, only consumes
  bytes of `in_`
- `starts_clean_of_blank`: what is sent on a connection are requests that were begun on it, and
  what is received on it is parsed from its first byte on, in the runs in which `in_` and `out_`
  are empty and no request is open at each connect

## Model

Only connects that succeed are steps, the others change nothing that is modelled here. The two
tests of `status_` in `begin_request` are one step with what stands between them: a close in
between makes the call return `nullptr`, as one before it does.
-/

namespace SimpleRpc.Rpc

open SimpleRpc.Lib SimpleRpc.Base

/-! ## A round of the frame loop for any peer -/

namespace Client

variable {κ : Type} {s s' : Client κ}

/-- A round of the frame loop leaves everything but `in_` and the Futures alone. -/
structure Round (s s' : Client κ) : Prop where
  inv : s'.Inv
  received : s'.received = s.received
  sent : s'.sender.sent = s.sender.sent
  done : s'.sender.done = s.sender.done
  current : s'.sender.current = s.sender.current
  holder : s'.sender.holder = s.sender.holder
  consumed : ∃ n, s'.world.content .in_ = (s.world.content .in_).drop n

/-- `read_from_marshal` of a slice that was not used before returns only if the bytes are there. -/
private theorem cut_of_ok {W W' : World ConnName} {ws : Set ConnName} (hI : W.Inv ws) {k n m : Nat}
    (hfresh : W.Fresh (.slice k)) (heq : W.readFromMarshal (.slice k) .in_ n = .ok (W', m)) :
    World.Transfers W W' (ws \ {.slice k}) (.slice k) .in_ n := by
  by_cases hn : n ≤ (W.content .in_).length
  · obtain ⟨W'', heq', ht⟩ := hI.cut (by simp) hfresh hn
    obtain ⟨rfl, -⟩ : W'' = W' ∧ n = m := by simpa using heq'.symm.trans heq
    exact ht
  · obtain ⟨e, he⟩ := World.readFromMarshal_fails hI.ok.ok (.slice k) .in_ hfresh
      (Nat.lt_of_not_le hn)
    rw [he] at heq
    cases heq

/-- Whatever the peer sends, a round that returns only consumes bytes of `in_`. -/
theorem Inv.parse_reads (hI : s.Inv) {buf buf' : List UInt8} (heq : s.parse buf buf' = .ok s') :
    Round s s' := by
  by_cases hr : FrameReady (s.world.content .in_)
  · obtain ⟨W₁, heq₁, hu₁⟩ := takeSize_ready hI.sender.world hr
    change takeSize s.world = _ at heq₁
    simp only [parse, heq₁, ok_bind] at heq
    obtain ⟨⟨xid, W₂⟩, heq₂, heq⟩ := bind_eq_ok.mp heq
    obtain ⟨⟨code, W₃⟩, heq₃, heq⟩ := bind_eq_ok.mp heq
    obtain ⟨n₂, hu₂⟩ := hu₁.inv.reads (reads_getV64 buf) heq₂
    obtain ⟨n₃, hu₃⟩ := hu₂.inv.reads (reads_getV32 buf') heq₃
    -- the header: the size field and two integers of unknown lengths
    have hin₃ : W₃.content .in_ = (s.world.content .in_).drop (4 + (n₂ + n₃)) := by
      rw [hu₃.content_same, hu₂.content_same, hu₁.content_same, List.drop_drop, List.drop_drop]
      rfl
    have huntouched : ∀ j, j ≠ .in_ → World.Untouched s.world W₃ j := fun j hj =>
      ((hu₁.untouched hj).trans (hu₂.untouched hj)).trans (hu₃.untouched hj)
    cases hfu : s.pendingFu xid with
    | none =>
      obtain rfl : s.skip W₃ = s' := by simpa only [hfu, pure_eq_ok, Except.ok.injEq] using heq
      have hI' := hI.untouched
        (hI.sender.untouched hu₃.inv hI.sender.out_mem (huntouched _ (by simp))) hI.in_mem
        subset_rfl fun k _ => huntouched _ (by simp)
      exact ⟨⟨hI'.sender, hI'.in_mem, hI'.owned, hI'.fresh, hI'.pending, hI'.distinct⟩,
        rfl, rfl, rfl, rfl, rfl, _, hin₃⟩
    | some fu =>
      -- the rest of the packet, as far as `in_` reaches
      simp only [hfu] at heq
      obtain ⟨_, -, heq⟩ := bind_eq_ok.mp heq
      obtain ⟨⟨W₄, m⟩, heq₄, heq⟩ := bind_eq_ok.mp heq
      obtain rfl : s.complete W₄ fu code = s' := by simpa using heq
      obtain ⟨hxid, hlt, hfresh⟩ := hI.pending xid fu hfu
      have hfresh₃ : W₃.Fresh (.slice fu.reply) := hfresh.untouched (huntouched _ (by simp))
      obtain ⟨n, ht⟩ : ∃ n, World.Transfers W₃ W₄ _ (.slice fu.reply) .in_ n :=
        ⟨_, cut_of_ok hu₃.inv hfresh₃ heq₄⟩
      have hinv₄ : W₄.Inv s.sender.writers :=
        ht.inv.mono fun i hi => ⟨hi, fun h => hI.slice_not_mem _ (h ▸ hi)⟩
      have hI' := hI.complete hfu hinv₄
        ((huntouched _ (by simp)).trans (ht.untouched (by simp) (by simp)))
        (fun k hk => (huntouched _ (by simp)).trans (ht.untouched (by simpa using hk) (by simp))) code
      refine ⟨hI', rfl, rfl, rfl, rfl, rfl, 4 + (n₂ + n₃) + n, ?_⟩
      change W₄.content .in_ = _
      rw [ht.content_eq, Function.update_of_ne (by simp), Function.update_self, hin₃,
        List.drop_drop]
  · obtain ⟨heq', hinv⟩ := hI.parse_not_ready hr buf buf'
    obtain rfl : { s with parsing := false } = s' := by simpa using heq'.symm.trans heq
    exact ⟨hinv, rfl, rfl, rfl, rfl, rfl, 0, rfl⟩

end Client

/-! ## The code -/

/-- A thread that holds `out_l_` and is in `begin_request`, or has got `nullptr` from it. -/
inductive Opening (κ : Type) where
  | nobody
  /-- `begin_request` has returned `nullptr` -/
  | refused (t : κ)
  /-- the Future is made, `set_bookmark` comes next -/
  | begun (t : κ) (xid : Int64) (rpcId : Int32)
  /-- `*this << v64(fu->xid_);` comes next -/
  | marked (t : κ) (xid : Int64) (rpcId : Int32)
  /-- `*this << rpc_id;` comes next -/
  | numbered (t : κ) (xid : Int64) (rpcId : Int32)
  deriving DecidableEq

/-- A Client that may be connected several times. -/
structure ReconnectingClient (κ : Type) where
  /-- its ghosts are about the current connection -/
  client : Client κ
  /-- `status_ == CONNECTED` -/
  connected : Bool
  opening : Opening κ
  /-- ghost: the requests that were begun on the current connection -/
  requests : List κ
  /-- ghost: what the frame loop consumed since the current connection was made -/
  consumed : List UInt8

/-- A step of a thread or of the poll thread. -/
inductive ReconnectOp (κ : Type) where
  | connect
  /-- `handle_error`, `close` -/
  | close
  | begin (t : κ) (rpcId : Int32)
  | mark (t : κ)
  | number (t : κ) (buf : List UInt8)
  | name (t : κ)
  | put (t : κ) (v : Value)
  | writeMarshal (t : κ) (j : ConnName)
  | endRequest (t : κ)
  | handleWrite (resps : List Nat)
  | readFd (avail : List UInt8) (resps : List Nat)
  | parse (buf buf' : List UInt8)
  /-- somebody uses other Marshals of the process -/
  | own (op : OwnOp ConnName)

namespace ReconnectingClient

variable {κ : Type}

/-- `Client(pollmgr)` -/
def init (h : Heap) : ReconnectingClient κ := ⟨.init h, false, .nobody, [], []⟩

/-- The same Client after an operation of the sending half. -/
def withSender (s : ReconnectingClient κ) (sender : Sender ConnName κ) : ReconnectingClient κ :=
  { s with client := { s.client with sender := sender } }

/-- `connect(addr)` when both sockets were opened: the ghosts start again, the rest stays. -/
def connect (s : ReconnectingClient κ) : ReconnectingClient κ :=
  { s with
    client := { s.client with
      sender := { s.client.sender with sent := [], begun := [], done := [] }
      received := []
      log := [] }
    connected := true
    requests := []
    consumed := [] }

/-- `close()`: `status_ = CLOSED; invalidate_pending_futures();` -/
def close (s : ReconnectingClient κ) : ReconnectingClient κ :=
  { s with client := { s.client with pendingFu := fun _ => none }, connected := false }

/-- `begin_request(rpc_id)` up to its second test of `status_` -/
def begin (s : ReconnectingClient κ) (t : κ) (rpcId : Int32) : ReconnectingClient κ :=
  if s.connected then
    { s with
      client := s.client.addFuture s.client.sender
      opening := .begun t s.client.xidCounter rpcId
      requests := s.requests ++ [t] }
  else { s with opening := .refused t }

/-- `*this << v`: `if (status_ == CONNECTED) this->out_ << v;` -/
def put (s : ReconnectingClient κ) (v : Value) : Except Fault (ReconnectingClient κ) :=
  if s.connected then do
    let sender ← s.client.sender.put .out_ v
    pure (s.withSender sender)
  else pure s

/-- `*this << m_j`: `if (status_ == CONNECTED) out_.read_from_marshal(m, m.content_size());` -/
def writeMarshal (s : ReconnectingClient κ) (j : ConnName) : Except Fault (ReconnectingClient κ) :=
  if s.connected then do
    let sender ← s.client.sender.writeMarshal .out_ j
    pure (s.withSender sender)
  else pure s

/-- `end_request()` -/
def endRequest (s : ReconnectingClient κ) (t : κ) : ReconnectingClient κ :=
  let sender := match s.client.sender.bmark with
    | some _ => s.client.sender.endMessage .out_ t
    | none => { s.client.sender with holder := none }
  { s.withSender sender with opening := .nobody }

/-- `handle_write()` -/
def handleWrite (s : ReconnectingClient κ) (resps : List Nat) :
    Except Fault (ReconnectingClient κ) :=
  if s.connected then do
    let sender ← s.client.sender.handleWrite .out_ resps
    pure (s.withSender sender)
  else pure s

/-- The part of `handle_read()` in front of the frame loop -/
def readFd (s : ReconnectingClient κ) (avail : List UInt8) (resps : List Nat) :
    Except Fault (ReconnectingClient κ) :=
  if s.connected then do
    let (client, _) ← s.client.readFd avail resps
    pure { s with client := client }
  else pure s

/-- One round of the frame loop -/
def parse (s : ReconnectingClient κ) (buf buf' : List UInt8) :
    Except Fault (ReconnectingClient κ) := do
  let client ← s.client.parse buf buf'
  let taken := (s.client.world.content .in_).length - (client.world.content .in_).length
  pure { s with client := client
                consumed := s.consumed ++ (s.client.world.content .in_).take taken }

/-- One step. -/
def step (s : ReconnectingClient κ) : ReconnectOp κ → Except Fault (ReconnectingClient κ)
  | .connect => do
    verify (s.connected = false)
    pure s.connect
  | .close => pure s.close
  | .begin t rpcId => pure (s.begin t rpcId)
  | .mark t => do
    let sender ← s.client.sender.mark .out_ t
    let opening := match s.opening with
      | .begun t xid rpcId => .marked t xid rpcId
      | opening => opening
    pure { s.withSender sender with opening := opening }
  | .number _ buf =>
    match s.opening with
    | .marked t xid rpcId => do
      let s ← s.put (.v64 buf xid)
      pure { s with opening := .numbered t xid rpcId }
    | _ => pure s
  | .name _ =>
    match s.opening with
    | .numbered _ _ rpcId => do
      let s ← s.put (.i32 rpcId)
      pure { s with opening := .nobody }
    | _ => pure s
  | .put _ v => s.put v
  | .writeMarshal _ j => s.writeMarshal j
  | .endRequest t => pure (s.endRequest t)
  | .handleWrite resps => s.handleWrite resps
  | .readFd avail resps => s.readFd avail resps
  | .parse buf buf' => s.parse buf buf'
  | .own op => do
    let sender ← s.client.sender.step .out_ (.own op)
    pure (s.withSender sender)

/-- Nobody holds `out_l_`. -/
def LockFree (s : ReconnectingClient κ) : Prop :=
  s.client.sender.holder = none ∧ s.opening = .nobody

/-- The thread is between `begin_request` and `end_request`. -/
def InRequest (s : ReconnectingClient κ) (t : κ) : Prop :=
  s.client.sender.holder = some t ∧ s.opening = .nobody ∨ s.opening = .refused t

/-- When a step can be taken. -/
def Allowed (s : ReconnectingClient κ) : ReconnectOp κ → Prop
  | .connect | .close => True
  | .begin _ _ | .handleWrite _ => s.LockFree
  | .mark t => ∃ xid rpcId, s.opening = .begun t xid rpcId
  | .number t _ => ∃ xid rpcId, s.opening = .marked t xid rpcId
  | .name t => ∃ xid rpcId, s.opening = .numbered t xid rpcId
  | .put t _ | .endRequest t => s.InRequest t
  | .writeMarshal t j => s.InRequest t ∧ j ∈ s.client.sender.writers ∧ s.client.Foreign j
  | .readFd _ _ => s.client.parsing = false
  | .parse _ _ => s.client.parsing = true
  | .own op => s.client.Allowed (.send (.own op))

/-! ## Clean connections -/

/-- `in_` and `out_` are empty and no request is open. -/
structure Blank (s : ReconnectingClient κ) : Prop where
  in_eq : s.client.world.content .in_ = []
  out_eq : s.client.world.content .out_ = []
  free : s.LockFree

/-- Each connect finds the Client blank. -/
def Fit (s : ReconnectingClient κ) : ReconnectOp κ → Prop
  | .connect => s.Blank
  | _ => True

/-- A step in a run. -/
def Next (fit : ReconnectingClient κ → ReconnectOp κ → Prop) (s : ReconnectingClient κ)
    (op : ReconnectOp κ) (s' : ReconnectingClient κ) : Prop :=
  s.Allowed op ∧ fit s op ∧ s.step op = .ok s'

/-- A request starts with its header. -/
def IsRequest (payload : List UInt8) : Prop :=
  ∃ buf xid rpcId args, payload = (Value.v64 buf xid).bytes ++ (Value.i32 rpcId).bytes ++ args

/-- Who is in the middle of a request. -/
def inside (s : ReconnectingClient κ) : Option κ :=
  match s.opening with
  | .begun t _ _ => some t
  | _ => s.client.sender.holder

/-- What is asked of a connection: what was sent belongs to complete requests that were begun on
    it, and what was received on it was parsed from its first byte on. -/
structure StartsClean (s : ReconnectingClient κ) : Prop where
  sent : s.client.sender.sent <+: s.client.sender.done.flatMap fun msg => frame msg.2
  whole : ∀ msg ∈ s.client.sender.done, IsRequest msg.2
  requests : s.requests = s.client.sender.done.map Prod.fst ++ s.inside.toList
  received : s.client.received = s.consumed ++ s.client.world.content .in_

/-- Where the thread is that holds `out_l_`. -/
def Opened (s : ReconnectingClient κ) : Opening κ → Prop
  | .nobody => True
  | .refused _ => s.client.sender.holder = none ∧ s.connected = false
  | .begun _ _ _ => s.client.sender.holder = none
  | .marked t _ _ | .numbered t _ _ => s.client.sender.holder = some t

/-- What the open request has written so far. -/
def Written (s : ReconnectingClient κ) : Opening κ → Prop
  | .nobody => ∀ t, s.client.sender.holder = some t → IsRequest s.client.sender.current
  | .marked _ _ _ => s.client.sender.current = []
  | .numbered _ xid _ => ∃ buf, s.client.sender.current = (Value.v64 buf xid).bytes
  | _ => True

/-- The requests of the current connection. -/
structure Current (s : ReconnectingClient κ) : Prop where
  whole : ∀ msg ∈ s.client.sender.done, IsRequest msg.2
  requests : s.requests = s.client.sender.done.map Prod.fst ++ s.inside.toList
  written : s.Written s.opening

structure Inv (s : ReconnectingClient κ) : Prop where
  client : s.client.Inv
  opened : s.Opened s.opening
  received : s.client.received = s.consumed ++ s.client.world.content .in_
  current : s.connected = true → s.Current

theorem Inv.init (h : Heap) : Inv (init h : ReconnectingClient κ) where
  client := Client.inv_init h
  opened := trivial
  received := rfl
  current hc := by cases hc

section Steps

variable {s s' : ReconnectingClient κ} (h : Inv s)

include h

/-- `connect` on a blank Client. -/
theorem Inv.connect (hblank : s.Blank) : Inv s.connect where
  client :=
    -- the sender has nothing to send, on the new socket as well
    { h.client with
      sender :=
        { h.client.sender with
          free := fun _ => by
            obtain ⟨hbm, hcnt, -⟩ := h.client.sender.free hblank.free.1
            refine ⟨hbm, hcnt, ?_⟩
            change [] ++ s.client.world.content .out_ = _
            rw [hblank.out_eq]
            rfl
          held := fun t ht => by
            have hheld : s.client.sender.holder = some t := ht
            rw [hblank.free.1] at hheld
            cases hheld
          order := by
            change [] = [] ++ s.client.sender.holder.toList
            rw [hblank.free.1]
            rfl } }
  -- nobody is in a request
  opened := by
    change Opened _ s.opening
    rw [hblank.free.2]
    trivial
  -- nothing was received on the new socket
  received := by
    change [] = [] ++ s.client.world.content .in_
    rw [hblank.in_eq]
    rfl
  -- the ghost lists of the new connection are empty
  current _ := by
    refine ⟨by simp [ReconnectingClient.connect], ?_, ?_⟩
    · simp [ReconnectingClient.connect, inside, hblank.free.1, hblank.free.2]
    · simp [ReconnectingClient.connect, Written, hblank.free.1, hblank.free.2]

/-- `close` -/
theorem Inv.close : Inv s.close where
  client :=
    { h.client with
      pending := fun _ _ hfu => by cases hfu
      distinct := fun _ _ _ _ hfu => by cases hfu }
  opened := by
    have hopened := h.opened
    cases hop : s.opening <;> simp_all [Opened, ReconnectingClient.close]
  received := h.received
  current hc := by cases hc

/-- `begin_request` up to its second test of `status_` -/
theorem Inv.begin (hfree : s.LockFree) (t : κ) (rpcId : Int32) : Inv (s.begin t rpcId) := by
  obtain ⟨hholder, hopening⟩ := hfree
  unfold ReconnectingClient.begin
  cases hconn : s.connected with
  | false =>
    simp only [Bool.false_eq_true, if_false]
    exact { h with opened := ⟨hholder, rfl⟩, current := fun hc => by cases hc }
  | true =>
    simp only [if_true]
    have hcur := h.current hconn
    refine ⟨h.client.addFuture h.client, hholder, h.received, fun _ => ⟨hcur.whole, ?_, trivial⟩⟩
    -- before this request nobody was inside
    have hinside : s.inside = none := by rw [inside, hopening, hholder]
    have hrequests := hcur.requests
    rw [hinside] at hrequests
    simp [inside, hrequests, Client.addFuture]

/-- A step of the sending half that leaves `in_` alone. -/
theorem Inv.afterSend {sender' : Sender ConnName κ} {o : Opening κ}
    (hinv : Client.Inv { s.client with sender := sender' })
    (hin : sender'.world.content .in_ = s.client.world.content .in_)
    (hopened : Opened { s.withSender sender' with opening := o } o)
    (hcurrent : s.connected = true → s.Current →
      Current { s.withSender sender' with opening := o }) :
    Inv { s.withSender sender' with opening := o } where
  client := hinv
  opened := hopened
  received := by
    change s.client.received = s.consumed ++ sender'.world.content .in_
    rw [hin]
    exact h.received
  current hc := hcurrent hc (h.current hc)

/-- `bmark_ = out_.set_bookmark(sizeof(i32));` -/
theorem Inv.mark {t : κ} {xid : Int64} {rpcId : Int32} (hop : s.opening = .begun t xid rpcId) :
    ∃ s', s.step (.mark t) = .ok s' ∧ Inv s' := by
  have hholder : s.client.sender.holder = none := by
    have hopened := h.opened
    rw [hop] at hopened
    exact hopened
  obtain ⟨W', bm, heq, hsender, hu⟩ := h.client.sender.mark hholder t
  have hinv := h.client.untouched hsender h.client.in_mem subset_rfl fun k _ => hu _ (by simp)
  have hstep : s.step (.mark t) =
      .ok { s.withSender (s.client.sender.started t W' bm []) with opening := .marked t xid rpcId } := by
    simp only [step, Sender.mark, heq, ok_bind, pure_eq_ok, hop]
  refine ⟨_, hstep, h.afterSend hinv (hu _ (by simp)).content_eq rfl fun _ hcur => ⟨hcur.whole, ?_, rfl⟩⟩
  have hrequests := hcur.requests
  rw [inside, hop] at hrequests
  exact hrequests

/-- A closed Client forgets what it was told to send. -/
theorem Inv.skip {o : Opening κ} (hconn : s.connected = false) (hopened : s.Opened o) :
    Inv { s with opening := o } where
  client := h.client
  opened := by cases o <;> exact hopened
  received := h.received
  current hc := by
    have hc : s.connected = true := hc
    rw [hconn] at hc
    cases hc

/-- The thread that holds the lock appends to `out_` and is at `o` afterwards. -/
theorem Inv.append {t : κ} {o : Opening κ} (op : SendOp ConnName κ)
    (hallowed : s.client.Allowed (.send op)) (hkeeps : ∀ old, op.holder old = old)
    (hfin : ∀ current, op.finished current = []) (hheld : s.client.sender.holder = some t)
    (hinside : s.inside = some t) (ho : o = .nobody ∨ ∃ xid rpcId, o = .numbered t xid rpcId)
    (hwritten : s.connected = true → s.Current → ∀ sender' : Sender ConnName κ,
      sender'.current = op.current s.client.sender.world s.client.sender.current →
        Written (s.withSender sender') o) :
    ∃ sender', s.client.sender.step .out_ op = .ok sender' ∧
      Inv { s.withSender sender' with opening := o } := by
  obtain ⟨sender', heq, hinv, heff, hin⟩ := h.client.send hallowed
  have hheld' : sender'.holder = some t := by rw [heff.holder, hkeeps, hheld]
  have hdone : sender'.done = s.client.sender.done := by rw [heff.done, hfin, List.append_nil]
  refine ⟨sender', heq, h.afterSend hinv hin ?_ ?_⟩
  · -- the caller still holds the lock
    obtain rfl | ⟨xid, rpcId, rfl⟩ := ho
    · trivial
    · exact hheld'
  · intro hconn hcur
    refine ⟨?_, ?_, ?_⟩
    · -- the messages that ended are the same ones
      change ∀ msg ∈ sender'.done, _
      rw [hdone]
      exact hcur.whole
    · -- the request that is open is the same one
      have hinside' : inside { s.withSender sender' with opening := o } = some t := by
        obtain rfl | ⟨xid, rpcId, rfl⟩ := ho <;> exact hheld'
      rw [hinside']
      have hrequests := hcur.requests
      rw [hinside, ← hdone] at hrequests
      exact hrequests
    · -- it holds what was written for it so far
      have hw := hwritten hconn hcur sender' heff.current
      cases o <;> exact hw

/-- `*this << v` of the thread that holds the lock -/
theorem Inv.put {t : κ} {o : Opening κ} (v : Value) (hheld : s.client.sender.holder = some t)
    (hinside : s.inside = some t) (ho : o = .nobody ∨ ∃ xid rpcId, o = .numbered t xid rpcId)
    (hwritten : s.connected = true → s.Current → ∀ sender' : Sender ConnName κ,
      sender'.current = s.client.sender.current ++ v.bytes → Written (s.withSender sender') o) :
    ∃ s', s.put v = .ok s' ∧ s'.opening = s.opening ∧ Inv { s' with opening := o } := by
  unfold ReconnectingClient.put
  cases hconn : s.connected with
  | false =>
    refine ⟨s, rfl, rfl, h.skip hconn ?_⟩
    obtain rfl | ⟨xid, rpcId, rfl⟩ := ho
    · trivial
    · exact hheld
  | true =>
    obtain ⟨sender', heq, hinv⟩ := h.append (.put t v) ⟨hheld, by simp [SendOp.names]⟩
      (fun _ => rfl) (fun _ => rfl) hheld hinside ho hwritten
    have heq : s.client.sender.put .out_ v = .ok sender' := heq
    exact ⟨s.withSender sender', by simp [heq], rfl, hinv⟩

omit h in
/-- The thread that has got its Future has written the header. -/
theorem Current.isRequest {t : κ} (hcur : s.Current) (hheld : s.client.sender.holder = some t)
    (hop : s.opening = .nobody) : IsRequest s.client.sender.current := by
  have hwritten := hcur.written
  rw [hop] at hwritten
  exact hwritten t hheld

omit h in
/-- More arguments make a request a longer request. -/
theorem IsRequest.append {payload : List UInt8} (hreq : IsRequest payload) (bytes : List UInt8) :
    IsRequest (payload ++ bytes) := by
  obtain ⟨buf, xid, rpcId, args, rfl⟩ := hreq
  exact ⟨buf, xid, rpcId, args ++ bytes, by rw [List.append_assoc]⟩

/-- `*this << v64(fu->xid_);` -/
theorem Inv.number {t : κ} {xid : Int64} {rpcId : Int32} (hop : s.opening = .marked t xid rpcId)
    (buf : List UInt8) : ∃ s', s.step (.number t buf) = .ok s' ∧ Inv s' := by
  have hheld : s.client.sender.holder = some t := by
    have hopened := h.opened
    rw [hop] at hopened
    exact hopened
  obtain ⟨s', heq, -, hinv⟩ := h.put (o := .numbered t xid rpcId) (.v64 buf xid) hheld
    (by rw [inside, hop, hheld]) (.inr ⟨xid, rpcId, rfl⟩) (by
      intro _ hcur sender' hcurrent
      have hwritten := hcur.written
      rw [hop] at hwritten
      exact ⟨buf, by rw [hwritten] at hcurrent; exact hcurrent⟩)
  exact ⟨_, by simp only [step, hop, heq, ok_bind, pure_eq_ok], hinv⟩

/-- `*this << rpc_id;` -/
theorem Inv.name {t : κ} {xid : Int64} {rpcId : Int32} (hop : s.opening = .numbered t xid rpcId) :
    ∃ s', s.step (.name t) = .ok s' ∧ Inv s' := by
  have hheld : s.client.sender.holder = some t := by
    have hopened := h.opened
    rw [hop] at hopened
    exact hopened
  obtain ⟨s', heq, -, hinv⟩ := h.put (o := .nobody) (.i32 rpcId) hheld (by rw [inside, hop, hheld])
    (.inl rfl) (by
      intro _ hcur sender' hcurrent _ _
      have hwritten := hcur.written
      rw [hop] at hwritten
      obtain ⟨buf, hbytes⟩ := hwritten
      refine ⟨buf, xid, rpcId, [], ?_⟩
      rw [List.append_nil, ← hbytes]
      exact hcurrent)
  exact ⟨_, by simp only [step, hop, heq, ok_bind, pure_eq_ok], hinv⟩

/-- `*this << v` of a caller of `begin_request` -/
theorem Inv.putArg {t : κ} (hin : s.InRequest t) (v : Value) :
    ∃ s', s.step (.put t v) = .ok s' ∧ Inv s' := by
  obtain ⟨hheld, hop⟩ | hop := hin
  · obtain ⟨s', heq, hop', hinv⟩ := h.put (o := .nobody) v hheld (by rw [inside, hop, hheld])
      (.inl rfl) (by
        intro _ hcur sender' hcurrent _ _
        change IsRequest sender'.current
        rw [hcurrent]
        exact (hcur.isRequest hheld hop).append _)
    rw [← hop, ← hop'] at hinv
    exact ⟨s', heq, hinv⟩
  · -- `begin_request` has returned `nullptr`, so the Client is closed
    have hopened := h.opened
    rw [hop] at hopened
    exact ⟨s, by simp [step, ReconnectingClient.put, hopened.2], h⟩

/-- `*this << m_j` of a caller of `begin_request` -/
theorem Inv.writeMarshal {t : κ} {j : ConnName} (hin : s.InRequest t)
    (hj : j ∈ s.client.sender.writers) (hforeign : s.client.Foreign j) :
    ∃ s', s.step (.writeMarshal t j) = .ok s' ∧ Inv s' := by
  have hout : j ≠ .out_ := by
    rintro rfl
    exact hforeign
  obtain ⟨hheld, hop⟩ | hop := hin
  · cases hconn : s.connected with
    | false => exact ⟨s, by simp [step, ReconnectingClient.writeMarshal, hconn], h⟩
    | true =>
      obtain ⟨sender', heq, hinv⟩ := h.append (o := .nobody) (.writeMarshal t j)
        ⟨⟨hheld, hj, hout⟩, by simpa [SendOp.names] using hforeign⟩ (fun _ => rfl) (fun _ => rfl) hheld
        (by rw [inside, hop, hheld]) (.inl rfl) (by
          intro _ hcur sender' hcurrent _ _
          change IsRequest sender'.current
          rw [hcurrent]
          exact (hcur.isRequest hheld hop).append _)
      have heq : s.client.sender.writeMarshal .out_ j = .ok sender' := heq
      rw [← hop] at hinv
      exact ⟨s.withSender sender', by simp [step, ReconnectingClient.writeMarshal, hconn, heq], hinv⟩
  · have hopened := h.opened
    rw [hop] at hopened
    exact ⟨s, by simp [step, ReconnectingClient.writeMarshal, hopened.2], h⟩

/-- `end_request()` -/
theorem Inv.endRequest {t : κ} (hin : s.InRequest t) : Inv (s.endRequest t) := by
  obtain ⟨hheld, hop⟩ | hop := hin
  · obtain ⟨bm, pre, post, hbm, -⟩ := h.client.sender.held t hheld
    have hallowed : s.client.Allowed (.send (.endMessage t)) := ⟨hheld, by simp [SendOp.names]⟩
    obtain ⟨sender', heq, hinv, heff, hin⟩ := h.client.send hallowed
    obtain rfl : s.client.sender.endMessage .out_ t = sender' := by simpa [Sender.step] using heq
    simp only [ReconnectingClient.endRequest, hbm]
    refine h.afterSend hinv hin trivial fun _ hcur => ⟨?_, ?_, ?_⟩
    · -- the message that ends is the one that is open
      intro msg hmsg
      have hmsg : msg ∈ s.client.sender.done ++ [(t, s.client.sender.current)] := hmsg
      obtain hmsg | rfl : msg ∈ s.client.sender.done ∨ msg = (t, s.client.sender.current) := by
        simpa using hmsg
      · exact hcur.whole msg hmsg
      · -- the message that ends here was begun on this connection
        exact hcur.isRequest hheld hop
    · -- it moves from the open request to the ended ones
      have hrequests := hcur.requests
      rw [inside, hop, hheld] at hrequests
      simpa [inside, withSender, Sender.endMessage] using hrequests
    · -- nobody is inside afterwards
      intro t' ht'
      cases ht'
  · -- nothing was reserved for a caller that got `nullptr`
    have hopened := h.opened
    rw [hop] at hopened
    obtain ⟨hbm, -, -⟩ := h.client.sender.free hopened.1
    have hholder : { s.client.sender with holder := none } = s.client.sender := by
      rw [← hopened.1]
    have hsame : s.endRequest t = { s with opening := .nobody } := by
      unfold ReconnectingClient.endRequest
      split
      · simp_all
      · rw [hholder]
        rfl
    rw [hsame]
    exact h.skip hopened.2 trivial

/-- `handle_write()` -/
theorem Inv.handleWrite (hfree : s.LockFree) (resps : List Nat) :
    ∃ s', s.handleWrite resps = .ok s' ∧ Inv s' := by
  obtain ⟨hholder, hop⟩ := hfree
  unfold ReconnectingClient.handleWrite
  cases hconn : s.connected with
  | false => exact ⟨s, rfl, h⟩
  | true =>
    have hallowed : s.client.Allowed (.send (.handleWrite resps)) :=
      ⟨hholder, by simp [SendOp.names]⟩
    obtain ⟨sender', heq, hinv, heff, hin⟩ := h.client.send hallowed
    have heq : s.client.sender.handleWrite .out_ resps = .ok sender' := heq
    have hdone : sender'.done = s.client.sender.done := by
      simpa [SendOp.finished] using heff.done
    have hholder' : sender'.holder = none := heff.holder.trans hholder
    have hafter := h.afterSend (o := .nobody) hinv hin trivial fun _ hcur => by
      refine ⟨?_, ?_, ?_⟩
      · -- `handle_write` ends no message
        change ∀ msg ∈ sender'.done, _
        rw [hdone]
        exact hcur.whole
      · -- and no request
        have hrequests := hcur.requests
        rw [inside, hop, hholder] at hrequests
        simpa [inside, withSender, hdone, hholder'] using hrequests
      · -- nobody is inside
        intro t ht
        have ht : sender'.holder = some t := ht
        rw [hholder'] at ht
        cases ht
    rw [← hop] at hafter
    exact ⟨s.withSender sender', by simp [heq], hafter⟩

/-- A step of `handle_read` does not touch the requests. -/
theorem Inv.afterRead {client' : Client κ} {consumed' : List UInt8} (hinv : client'.Inv)
    (hholder : client'.sender.holder = s.client.sender.holder)
    (hdone : client'.sender.done = s.client.sender.done)
    (hcurrent : client'.sender.current = s.client.sender.current)
    (hreceived : client'.received = consumed' ++ client'.world.content .in_) :
    Inv { s with client := client', consumed := consumed' } where
  client := hinv
  opened := by
    have hopened := h.opened
    cases hop : s.opening <;> simp_all [Opened]
  received := hreceived
  current hc := by
    obtain ⟨hwhole, hrequests, hwritten⟩ := h.current hc
    refine ⟨?_, ?_, ?_⟩
    · simpa only [hdone] using hwhole
    · simpa only [inside, hdone, hholder] using hrequests
    · cases hop : s.opening <;> simp_all [Written]

/-- The part of `handle_read()` in front of the frame loop -/
theorem Inv.readFd (avail : List UInt8) (resps : List Nat) :
    ∃ s', s.readFd avail resps = .ok s' ∧ Inv s' := by
  cases hconn : s.connected with
  | false => exact ⟨s, by simp [ReconnectingClient.readFd, hconn], h⟩
  | true =>
    obtain ⟨W', k, heq, -, hinv, hcontent⟩ := h.client.readFd avail resps
    have hstep : s.readFd avail resps = .ok { s with client := s.client.fill W' (avail.take k) } := by
      simp [ReconnectingClient.readFd, hconn, heq]
    refine ⟨_, hstep, h.afterRead hinv rfl rfl rfl ?_⟩
    change s.client.received ++ avail.take k = s.consumed ++ W'.content .in_
    rw [hcontent, ← List.append_assoc, h.received]

/-- One round of the frame loop -/
theorem Inv.parse {buf buf' : List UInt8} (heq : s.parse buf buf' = .ok s') : Inv s' := by
  obtain ⟨client', hparse, hret⟩ := bind_eq_ok.mp heq
  obtain ⟨hinv, hreceived, hsent, hdone, hcurrent, hholder, n, hcontent⟩ :=
    h.client.parse_reads hparse
  obtain rfl := Except.ok.inj hret
  refine h.afterRead hinv hholder hdone hcurrent ?_
  -- what the round consumed is what is missing in `in_`
  have htaken : (s.client.world.content .in_).take
      ((s.client.world.content .in_).length - (client'.world.content .in_).length) ++
        client'.world.content .in_ = s.client.world.content .in_ := by
    rw [hcontent, List.length_drop]
    obtain hn | hn := Nat.le_total n (s.client.world.content .in_).length
    · rw [Nat.sub_sub_self hn, List.take_append_drop]
    · rw [List.drop_eq_nil_of_le hn, Nat.sub_eq_zero_of_le hn, Nat.sub_zero, List.take_length,
        List.append_nil]
  rw [hreceived, h.received, List.append_assoc, htaken]

/-- Others use their Marshals. -/
theorem Inv.own {op : OwnOp ConnName} (hop : s.client.Allowed (.send (.own op))) :
    ∃ s', s.step (.own op) = .ok s' ∧ Inv s' := by
  obtain ⟨sender', heq, hinv, heff, hin⟩ := h.client.send hop
  have hdone : sender'.done = s.client.sender.done := by
    simpa [SendOp.finished] using heff.done
  refine ⟨s.withSender sender', by simp [step, heq], ?_⟩
  refine h.afterRead hinv heff.holder hdone heff.current ?_
  change s.client.received = s.consumed ++ sender'.world.content .in_
  rw [hin]
  exact h.received

/-- **One step** keeps the invariant, if a connect finds the Client blank. -/
theorem Inv.step {op : ReconnectOp κ} (hop : s.Allowed op) (hfit : s.Fit op)
    (heq : s.step op = .ok s') : Inv s' := by
  -- a step has one result
  have hdet : ∀ {s₁ : ReconnectingClient κ}, (∃ s₂, s.step op = .ok s₂ ∧ Inv s₂) →
      s.step op = .ok s₁ → Inv s₁ := by
    rintro s₁ ⟨s₂, heq₂, hinv⟩ heq₁
    obtain rfl : s₂ = s₁ := by simpa using heq₂.symm.trans heq₁
    exact hinv
  cases op with
  | connect =>
    obtain ⟨-, -, hret⟩ := bind_eq_ok.mp heq
    obtain rfl := Except.ok.inj hret
    exact h.connect hfit
  | close =>
    obtain rfl := Except.ok.inj heq
    exact h.close
  | begin t rpcId =>
    obtain rfl := Except.ok.inj heq
    exact h.begin hop t rpcId
  | mark t =>
    obtain ⟨xid, rpcId, hop⟩ := hop
    exact hdet (h.mark hop) heq
  | number t buf =>
    obtain ⟨xid, rpcId, hop⟩ := hop
    exact hdet (h.number hop buf) heq
  | name t =>
    obtain ⟨xid, rpcId, hop⟩ := hop
    exact hdet (h.name hop) heq
  | put t v => exact hdet (h.putArg hop v) heq
  | writeMarshal t j => exact hdet (h.writeMarshal hop.1 hop.2.1 hop.2.2) heq
  | endRequest t =>
    obtain rfl := Except.ok.inj heq
    exact h.endRequest hop
  | handleWrite resps => exact hdet (h.handleWrite hop resps) heq
  | readFd avail resps => exact hdet (h.readFd avail resps) heq
  | parse buf buf' => exact h.parse heq
  | own op => exact hdet (h.own hop) heq

end Steps

/-- **A connection starts clean** in every run in which each connect finds `in_` and `out_` empty
    and no request open: as long as the Client is connected, what was sent on the connection
    belongs to complete requests that were begun on it, and what was received on it was parsed
    from its first byte on. -/
theorem starts_clean_of_blank (h : Heap) (ops : List (ReconnectOp κ)) (s : ReconnectingClient κ)
    (hrun : Steps (Next Fit) (init h) ops s) (hconn : s.connected = true) : s.StartsClean := by
  have hinv : Inv s := by
    apply hrun.invariant _ (Inv.init h)
    rintro s op s' hinv ⟨hop, hfit, heq⟩
    exact hinv.step hop hfit heq
  have hcur := hinv.current hconn
  exact ⟨hinv.client.sender.sent_prefix, hcur.whole, hcur.requests, hinv.received⟩

/-! ## Runs of one thread -/

/-- Checks that a step of the only thread can be taken. -/
def ready (s : ReconnectingClient Unit) : ReconnectOp Unit → Bool
  | .connect | .close => true
  | .begin _ _ | .handleWrite _ => s.client.sender.holder = none ∧ s.opening = .nobody
  | .mark _ => (s.opening matches .begun _ _ _)
  | .number _ _ => (s.opening matches .marked _ _ _)
  | .name _ => (s.opening matches .numbered _ _ _)
  | .put _ _ | .endRequest _ =>
    s.client.sender.holder = some () ∧ s.opening = .nobody ∨ s.opening = .refused ()
  | .readFd _ _ => s.client.parsing = false
  | .parse _ _ => s.client.parsing = true
  | _ => false

theorem allowed_of_ready {s : ReconnectingClient Unit} {op : ReconnectOp Unit}
    (hop : s.ready op = true) : s.Allowed op := by
  cases op with
  | mark _ | number _ _ | name _ => cases ho : s.opening <;> simp_all [ready, Allowed]
  | _ => simp_all [ready, Allowed, LockFree, InRequest]

/-- Checks that a connect finds the Client blank. -/
def blank (s : ReconnectingClient Unit) : ReconnectOp Unit → Bool
  | .connect => s.client.world.content .in_ = [] ∧ s.client.world.content .out_ = [] ∧
      s.client.sender.holder = none ∧ s.opening = .nobody
  | _ => true

theorem fit_of_blank {s : ReconnectingClient Unit} {op : ReconnectOp Unit}
    (hop : s.blank op = true) : s.Fit op := by
  cases op with
  | connect =>
    obtain ⟨hin, hout, hholder, hop⟩ := of_decide_eq_true hop
    exact ⟨hin, hout, hholder, hop⟩
  | _ => trivial

/-- A run of one thread is found by evaluation. -/
theorem reach_of_checked (check : ReconnectingClient Unit → ReconnectOp Unit → Bool)
    {fit : ReconnectingClient Unit → ReconnectOp Unit → Prop}
    (hcheck : ∀ s op, check s op = true → fit s op) {ops : List (ReconnectOp Unit)}
    {P : ReconnectingClient Unit → Prop} [DecidablePred P]
    (hrun : (ops.foldlM (checked (fun s op => s.ready op && check s op) ReconnectingClient.step)
      (init .empty)).any (P ·) = true) : ∃ s, Steps (Next fit) (init .empty) ops s ∧ P s := by
  apply Steps.reach_of_checked _ _ _ hrun
  intro s op s' hop hstep
  obtain ⟨hready, hok⟩ := (Bool.and_eq_true _ _).mp hop
  exact ⟨allowed_of_ready hready, hcheck s op hok, hstep⟩

/-- A request of which `sent` bytes are sent before the connection breaks. -/
def sendThenReconnect (sent : Nat) : List (ReconnectOp Unit) :=
  [.connect, .begin () 7, .mark (), .number () [], .name (), .endRequest (), .handleWrite [sent],
   .close, .connect]

/-- A whole call on the second connection. -/
def callAgain : List (ReconnectOp Unit) :=
  [.begin () 8, .mark (), .number () [], .name (), .endRequest (), .handleWrite [9],
   .readFd (frame (Reply.bytes ⟨1, 0, [5]⟩)) [7], .parse [] [], .parse [] []]

/-- The request was sent before the connection broke, so that the second connection starts clean: its
    first request is sent on it as it was written, and its first reply completes that request. -/
theorem starts_clean_sendThenReconnect :
    ∃ s : ReconnectingClient Unit,
      Steps (Next Fit) (init .empty) (sendThenReconnect 9 ++ callAgain) s ∧
      (s.connected = true ∧ s.client.sender.sent = frame [1, 8, 0, 0, 0] ∧ s.requests = [()] ∧
        s.consumed = frame (Reply.bytes ⟨1, 0, [5]⟩)) ∧ s.StartsClean := by
  obtain ⟨s, hrun, hs⟩ : ∃ s : ReconnectingClient Unit,
      Steps (Next Fit) (init .empty) (sendThenReconnect 9 ++ callAgain) s ∧
      (s.connected = true ∧ s.client.sender.sent = frame [1, 8, 0, 0, 0] ∧ s.requests = [()] ∧
        s.consumed = frame (Reply.bytes ⟨1, 0, [5]⟩)) :=
    reach_of_checked blank (fun _ _ => fit_of_blank) (by decide +kernel)
  exact ⟨s, hrun, hs, starts_clean_of_blank _ _ _ hrun hs.1⟩

/-- A byte of a reply is received before the connection breaks. -/
def receiveThenReconnect : List (ReconnectOp Unit) :=
  [.connect, .readFd [3] [1], .parse [] [], .close, .connect, .readFd [2, 0] [2]]

/-- What is left of a request is sent on the second connection. -/
def sendLeftovers : List (ReconnectOp Unit) := sendThenReconnect 3 ++ [.handleWrite [9]]

/-- **Leftovers of the old connection**: the second half of a request is sent on the new one, and
    what is received on it is parsed behind a byte of the old one. -/
theorem leftovers_after_reconnect :
    (∃ s : ReconnectingClient Unit, Steps (Next fun _ _ => True) (init .empty) sendLeftovers s ∧
      s.connected = true ∧ s.client.sender.sent = [0, 0, 7, 0, 0, 0] ∧ s.requests = [] ∧
      ¬ s.StartsClean) ∧
    (∃ s : ReconnectingClient Unit, Steps (Next fun _ _ => True) (init .empty)
      receiveThenReconnect s ∧ s.connected = true ∧ s.client.received = [2, 0] ∧
      s.consumed = [] ∧ s.client.world.content .in_ = [3, 2, 0] ∧ ¬ s.StartsClean) := by
  constructor
  · -- half a message is left in `out_` by the old connection
    obtain ⟨s, hrun, hconn, hsent, hrequests, hdone⟩ : ∃ s : ReconnectingClient Unit,
        Steps (Next fun _ _ => True) (init .empty) sendLeftovers s ∧ s.connected = true ∧
        s.client.sender.sent = [0, 0, 7, 0, 0, 0] ∧ s.requests = [] ∧ s.client.sender.done = [] :=
      reach_of_checked (fun _ _ => true) (fun _ _ _ => trivial) (by decide +kernel)
    refine ⟨s, hrun, hconn, hsent, hrequests, ?_⟩
    intro hclean
    have hprefix := hclean.sent
    rw [hsent, hdone] at hprefix
    exact absurd hprefix (by decide)
  · -- a byte is left in `in_` by the old connection
    obtain ⟨s, hrun, hconn, hreceived, hconsumed, hin⟩ : ∃ s : ReconnectingClient Unit,
        Steps (Next fun _ _ => True) (init .empty) receiveThenReconnect s ∧ s.connected = true ∧
        s.client.received = [2, 0] ∧ s.consumed = [] ∧ s.client.world.content .in_ = [3, 2, 0] :=
      reach_of_checked (fun _ _ => true) (fun _ _ _ => trivial) (by decide +kernel)
    refine ⟨s, hrun, hconn, hreceived, hconsumed, hin, ?_⟩
    intro hclean
    have hstream := hclean.received
    rw [hreceived, hconsumed, hin] at hstream
    exact absurd hstream (by decide)

end ReconnectingClient

end SimpleRpc.Rpc
