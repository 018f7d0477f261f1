import SimpleRpc.Rpc.Receiver

/-!
# `Client::handle_read`

A client keeps a Future for each request it has begun in `pending_fu_`. `handle_read` fills `in_`
and then reads one reply after the other: its size, its `xid` and its error code from `in_`
itself, and the rest of it into the Future that waits for this `xid`.

## Layers

- **Code**: `beginRequest`, `readFd` and `parse`, one round of the frame loop
- **System**: `step`, these interleaved with whatever other threads and `handle_write` do
- **Invariant**: `Inv`, the Futures in `pending_fu_` are different and have no bytes yet

## Main results

- `Inv.parse_found`, `Inv.parse_missing`: one round of the frame loop
- `reply_stream_in_sync`: every run in which a reply with a payload finds its Future
- `late_reply_not_in_sync`: a reply with a payload that finds no Future leaves its payload in
  `in_`, where the next round takes it for a reply

## Model

The connection is open. `pending_fu_l_` is held for single operations on `pending_fu_`, so that
each round is a step. What waiters of a Future are told is left out.
-/

namespace SimpleRpc.Rpc

open SimpleRpc.Lib SimpleRpc.Base

/-- A `Future`: its `reply_` is the slice of that number. -/
structure Future where
  reply : Nat
  xid : Int64
  deriving DecidableEq

/-- What `handle_read` made of a Future, with the bytes that `reply_` got. -/
structure Completion where
  fu : Future
  errorCode : Int32
  bytes : List UInt8
  deriving DecidableEq

/-- A connected client with threads named by `κ`. -/
structure Client (κ : Type) where
  sender : Sender ConnName κ
  /-- `handle_read` is in its frame loop -/
  parsing : Bool
  /-- `xid_counter_` -/
  xidCounter : Int64
  /-- how many Futures were allocated -/
  futures : Nat
  /-- `pending_fu_` -/
  pendingFu : Int64 → Option Future
  /-- ghost: everything read from the socket -/
  received : List UInt8
  /-- ghost: for each packet parsed, the Future it completed -/
  log : List (Option Completion)

namespace Client

variable {κ : Type}

/-- A client that was just connected. -/
def init (h : Heap) : Client κ :=
  ⟨.init h ConnName.owned, false, 0, 0, fun _ => none, [], []⟩

/-- The Marshals of the process. -/
def world (s : Client κ) : World ConnName := s.sender.world

/-- The same client after an operation on its Marshals. -/
def withWorld (s : Client κ) (W : World ConnName) : Client κ :=
  { s with sender := { s.sender with world := W } }

/-! ## The code -/

/-- `new Future(xid_counter_.next(), attr); pending_fu_[fu->xid_] = fu;` -/
def addFuture (s : Client κ) (sender : Sender ConnName κ) : Client κ :=
  { s with
    sender := sender
    xidCounter := s.xidCounter + 1
    futures := s.futures + 1
    pendingFu := Function.update s.pendingFu s.xidCounter (some ⟨s.futures, s.xidCounter⟩) }

/-- `begin_request(rpc_id)` -/
def beginRequest (s : Client κ) (t : κ) (buf : List UInt8) (rpcId : Int32) :
    Except Fault (Client κ) := do
  let sender ← s.sender.beginRequest .out_ t buf s.xidCounter rpcId
  pure (s.addFuture sender)

/-- `if (bytes_read == 0) return;` where `bytes_read` is an `int`. -/
def fill (s : Client κ) (W : World ConnName) (got : List UInt8) : Client κ :=
  { s.withWorld W with parsing := got.length % 2 ^ 32 ≠ 0, received := s.received ++ got }

/-- `int bytes_read = in_.read_from_fd(sock_);` also returns what the kernel still has queued. -/
def readFd (s : Client κ) (avail : List UInt8) (resps : List Nat) :
    Except Fault (Client κ × List UInt8) := do
  let (W, rest, got) ← s.world.readFromFd .in_ avail resps
  pure (s.fill W got, rest)

/-- The Future is completed and no longer pending. -/
def complete (s : Client κ) (W : World ConnName) (fu : Future) (errorCode : Int32) : Client κ :=
  { s.withWorld W with
    pendingFu := Function.update s.pendingFu fu.xid none
    log := s.log ++ [some ⟨fu, errorCode, W.content (.slice fu.reply)⟩] }

/-- The future might timed out. -/
def skip (s : Client κ) (W : World ConnName) : Client κ :=
  { s.withWorld W with log := s.log ++ [none] }

/-- One round of the frame loop; `buf` and `buf'` are what the local arrays of the `v64` and
    `v32` operators held. -/
def parse (s : Client κ) (buf buf' : List UInt8) : Except Fault (Client κ) := do
  match ← takeSize s.world with
  | some (W, packetSize) =>
    let (replyXid, W) ← W.run .in_ (MarshalM.getV64 buf)
    let (errorCode, W) ← W.run .in_ (MarshalM.getV32 buf')
    match s.pendingFu replyXid with
    | some fu =>
      verify (fu.xid = replyXid)
      let n := sizeT (packetSize.toInt - SparseInt.valSize replyXid -
        SparseInt.valSize errorCode.toInt64)
      let (W, _) ← W.readFromMarshal (.slice fu.reply) .in_ n
      pure (s.complete W fu errorCode)
    | none => pure (s.skip W)
  | none => pure { s with parsing := false }

/-! ## The system -/

/-- A round of `handle_read`, or a step of somebody else. -/
inductive Op (κ : Type) where
  | beginRequest (t : κ) (buf : List UInt8) (rpcId : Int32)
  | send (op : SendOp ConnName κ)
  | readFd (avail : List UInt8) (resps : List Nat)
  | parse (buf buf' : List UInt8)

/-- One step. -/
def step (s : Client κ) : Op κ → Except Fault (Client κ)
  | .beginRequest t buf rpcId => s.beginRequest t buf rpcId
  | .send op => do
    let sender ← s.sender.step .out_ op
    pure { s with sender := sender }
  | .readFd avail resps => do
    let (s, _) ← s.readFd avail resps
    pure s
  | .parse buf buf' => s.parse buf buf'

/-- The Marshals that others may use: those of completed Futures and their own. -/
def Foreign (s : Client κ) : ConnName → Prop
  | .in_ | .out_ => False
  | .slice k => k < s.futures ∧ ∀ xid fu, s.pendingFu xid = some fu → fu.reply ≠ k
  | .user _ => True

/-- When a step can be taken. -/
def Allowed (s : Client κ) : Op κ → Prop
  | .beginRequest _ _ _ => s.sender.holder = none
  | .send op => s.sender.Allowed .out_ op ∧ ∀ i ∈ op.names, s.Foreign i
  | .readFd _ _ => s.parsing = false
  | .parse _ _ => s.parsing = true

/-! ## The invariant -/

/-- The Futures in `pending_fu_` are under their own `xid`, different, and empty. -/
structure Inv (s : Client κ) : Prop where
  sender : s.sender.Inv .out_
  in_mem : .in_ ∈ s.sender.writers
  owned : s.sender.writers ⊆ ConnName.owned
  fresh : ∀ k, s.futures ≤ k → s.world.Fresh (.slice k)
  pending : ∀ xid fu, s.pendingFu xid = some fu →
    fu.xid = xid ∧ fu.reply < s.futures ∧ s.world.Fresh (.slice fu.reply)
  distinct : ∀ xid xid' fu fu', s.pendingFu xid = some fu → s.pendingFu xid' = some fu' →
    fu.reply = fu'.reply → xid = xid'

theorem inv_init (h : Heap) : (init h : Client κ).Inv where
  sender := Sender.inv_init h (by simp [ConnName.owned])
  in_mem := by simp [init, Sender.init, ConnName.owned]
  owned := subset_rfl
  fresh _ _ := rfl
  pending _ _ h := nomatch h
  distinct _ _ _ _ h := nomatch h

section Steps

variable {s : Client κ} (hI : s.Inv)

include hI

theorem Inv.slice_not_mem (k : Nat) : ConnName.slice k ∉ s.sender.writers :=
  fun hmem => hI.owned hmem k rfl

/-- Whatever leaves the Marshals of unused and pending Futures alone. -/
theorem Inv.untouched {sender' : Sender ConnName κ} (hsender : sender'.Inv .out_)
    (hin : .in_ ∈ sender'.writers) (hsub : sender'.writers ⊆ s.sender.writers)
    (hu : ∀ k, (s.futures ≤ k ∨ ∃ xid fu, s.pendingFu xid = some fu ∧ fu.reply = k) →
      World.Untouched s.world sender'.world (.slice k)) :
    Inv { s with sender := sender' } where
  sender := hsender
  in_mem := hin
  owned := hsub.trans hI.owned
  fresh k hk := (hI.fresh k hk).untouched (hu k (.inl hk))
  pending xid fu hfu := by
    obtain ⟨hxid, hlt, hfresh⟩ := hI.pending xid fu hfu
    exact ⟨hxid, hlt, hfresh.untouched (hu _ (.inr ⟨xid, fu, hfu, rfl⟩))⟩
  distinct := hI.distinct

theorem Inv.addFuture {sender' : Sender ConnName κ}
    (hI' : Inv { s with sender := sender' }) : Inv (s.addFuture sender') where
  sender := hI'.sender
  in_mem := hI'.in_mem
  owned := hI'.owned
  fresh k hk := hI'.fresh k (Nat.le_of_succ_le hk)
  pending xid fu hfu := by
    by_cases hxid : xid = s.xidCounter
    · -- the entry that is added
      subst hxid
      obtain rfl : ⟨s.futures, s.xidCounter⟩ = fu := by simpa [Client.addFuture] using hfu
      exact ⟨rfl, Nat.lt_succ_self _, hI'.fresh _ (Nat.le_refl _)⟩
    · -- an entry of before
      have hfu' : s.pendingFu xid = some fu := by
        simpa [Client.addFuture, Function.update_of_ne hxid] using hfu
      obtain ⟨hx, hlt, hfresh⟩ := hI'.pending xid fu hfu'
      exact ⟨hx, Nat.lt_succ_of_lt hlt, hfresh⟩
  distinct xid xid' fu fu' hfu hfu' heq := by
    -- the new Future has a Marshal that no older one has
    simp only [Client.addFuture] at hfu hfu'
    by_cases hxid : xid = s.xidCounter
    · by_cases hxid' : xid' = s.xidCounter
      · -- both are the new entry
        rw [hxid, hxid']
      · -- only the first is the new entry
        rw [Function.update_of_ne hxid'] at hfu'
        rw [hxid, Function.update_self] at hfu
        have := (hI.pending xid' fu' hfu').2.1
        obtain rfl := Option.some.inj hfu
        simp at heq
        omega
    · rw [Function.update_of_ne hxid] at hfu
      -- only the second is, or neither
      by_cases hxid' : xid' = s.xidCounter
      · rw [hxid', Function.update_self] at hfu'
        have := (hI.pending xid fu hfu).2.1
        obtain rfl := Option.some.inj hfu'
        simp at heq
        omega
      · rw [Function.update_of_ne hxid'] at hfu'
        exact hI.distinct xid xid' fu fu' hfu hfu' heq

/-- `begin_request` sends the header and adds a Future. -/
theorem Inv.beginRequest (hfree : s.sender.holder = none) (t : κ) (buf : List UInt8)
    (rpcId : Int32) :
    ∃ W' bm, s.beginRequest t buf rpcId = .ok (s.addFuture
        (s.sender.started t W' bm (requestHeader buf s.xidCounter rpcId).bytes)) ∧
      Inv (s.addFuture (s.sender.started t W' bm (requestHeader buf s.xidCounter rpcId).bytes)) ∧
      W'.content .in_ = s.world.content .in_ := by
  obtain ⟨W', bm, heq, hinv, hu⟩ := hI.sender.beginMessage hfree t
    (requestHeader buf s.xidCounter rpcId)
  refine ⟨W', bm, ?_, hI.addFuture (hI.untouched hinv hI.in_mem subset_rfl fun k _ => hu _ (by simp)),
    (hu .in_ (by simp)).content_eq⟩
  simp only [Client.beginRequest, Sender.beginRequest, heq, ok_bind, pure_eq_ok]

/-- The steps of other threads do not disturb `handle_read`. -/
theorem Inv.send {op : SendOp ConnName κ} (hop : s.Allowed (.send op)) :
    ∃ sender', s.sender.step .out_ op = .ok sender' ∧ Inv { s with sender := sender' } ∧
      Sender.Effect .out_ s.sender op sender' ∧
      sender'.world.content .in_ = s.world.content .in_ := by
  obtain ⟨hsend, hforeign⟩ := hop
  obtain ⟨sender', heq, heff⟩ := hI.sender.step hsend
  have hin : ConnName.in_ ∉ op.names := fun hmem => hforeign _ hmem
  refine ⟨sender', heq, hI.untouched heff.inv (heff.writers _ hin hI.in_mem) heff.writers_sub
    fun k hk => heff.untouched _ (by simp) fun hmem => ?_, heff,
    (heff.untouched .in_ (by simp) hin).content_eq⟩
  obtain ⟨hlt, hnot⟩ := hforeign _ hmem
  rcases hk with hk | ⟨xid, fu, hfu, hreply⟩
  · omega
  · exact hnot xid fu hfu hreply

/-- `read_from_fd` puts more bytes behind those that `in_` holds. -/
theorem Inv.readFd (avail : List UInt8) (resps : List Nat) :
    ∃ W' k, s.readFd avail resps = .ok (s.fill W' (avail.take k), avail.drop k) ∧
      s.world.readFromFd .in_ avail resps = .ok (W', avail.drop k, avail.take k) ∧
      Inv (s.fill W' (avail.take k)) ∧ W'.content .in_ = s.world.content .in_ ++ avail.take k := by
  obtain ⟨W', k, heq, hk, hu⟩ := hI.sender.world.readFromFd hI.in_mem avail resps
  have hI' := hI.untouched (hI.sender.untouched hu.inv hI.sender.out_mem (hu.untouched (by simp)))
    hI.in_mem subset_rfl fun k _ => hu.untouched (by simp)
  refine ⟨W', k, ?_, heq, ⟨hI'.sender, hI'.in_mem, hI'.owned, hI'.fresh, hI'.pending, hI'.distinct⟩,
    hu.content_same⟩
  simp only [Client.readFd, world, heq, ok_bind, pure_eq_ok]

end Steps

/-! ## Replies -/

end Client

/-- A reply as a server sends it. -/
structure Reply where
  xid : Int64
  errorCode : Int32
  payload : List UInt8

/-- `<xid> <error_code> <payload>` -/
def Reply.bytes (r : Reply) : List UInt8 :=
  SparseInt.encode64 r.xid ++ SparseInt.encode32 r.errorCode ++ r.payload

namespace Client

variable {κ : Type}

section Rounds

variable {s : Client κ} (hI : s.Inv)

include hI

theorem Inv.parse_not_ready (hr : ¬ FrameReady (s.world.content .in_)) (buf buf' : List UInt8) :
    s.parse buf buf' = .ok { s with parsing := false } ∧ Inv { s with parsing := false } := by
  refine ⟨?_, hI.sender, hI.in_mem, hI.owned, hI.fresh, hI.pending, hI.distinct⟩
  simp only [Client.parse, world, takeSize_not_ready hI.sender.world hr, ok_bind, pure_eq_ok]

/-- Size, `xid` and error code are read from `in_`. -/
private theorem Inv.parse_header {r : Reply} {rest : List UInt8}
    (hcontent : s.world.content .in_ = frame r.bytes ++ rest) (hlt : r.bytes.length < 2 ^ 31)
    (h8 : SparseInt.valSize r.xid ≠ 8) (buf buf' : List UInt8) :
    ∃ W₁ W₂ W₃, takeSize s.world = .ok (some (W₁, packetSize (frame r.bytes ++ rest))) ∧
      W₁.run .in_ (MarshalM.getV64 buf) = .ok (r.xid, W₂) ∧
      W₂.run .in_ (MarshalM.getV32 buf') = .ok (r.errorCode, W₃) ∧
      W₃.Inv s.sender.writers ∧ W₃.content .in_ = r.payload ++ rest ∧
      ∀ j, j ≠ .in_ → World.Untouched s.world W₃ j := by
  have hr : FrameReady (s.world.content .in_) := hcontent ▸ frameReady_frame hlt rest
  obtain ⟨W₁, heq₁, hu₁⟩ := takeSize_ready hI.sender.world hr
  have hin₁ : W₁.content .in_ =
      SparseInt.encode64 r.xid ++ (SparseInt.encode32 r.errorCode ++ (r.payload ++ rest)) := by
    rw [hu₁.content_same]
    change (s.world.content .in_).drop 4 = _
    rw [hcontent, frame, List.append_assoc, List.drop_left' (leBytes_length ..)]
    simp only [Reply.bytes, List.append_assoc]
  obtain ⟨W₂, heq₂, hu₂⟩ := hu₁.inv.gets (gets_getV64 buf r.xid h8) hin₁
  obtain ⟨W₃, heq₃, hu₃⟩ := hu₂.inv.gets (gets_getV32 buf' r.errorCode) hu₂.content_same
  refine ⟨W₁, W₂, W₃, ?_, heq₂, heq₃, hu₃.inv, hu₃.content_same, fun j hj =>
    ((hu₁.untouched hj).trans (hu₂.untouched hj)).trans (hu₃.untouched hj)⟩
  rw [← hcontent]
  exact heq₁

/-- The others keep their places in `pending_fu_` and their Marshals. -/
theorem Inv.complete {xid : Int64} {fu : Future} (hfu : s.pendingFu xid = some fu)
    {W' : World ConnName} (hinv : W'.Inv s.sender.writers)
    (hout : World.Untouched s.world W' .out_)
    (hu : ∀ k, k ≠ fu.reply → World.Untouched s.world W' (.slice k)) (errorCode : Int32) :
    Inv (s.complete W' fu errorCode) := by
  obtain ⟨hxid, hreply, -⟩ := hI.pending xid fu hfu
  have hold : ∀ xid' fu', (s.complete W' fu errorCode).pendingFu xid' = some fu' →
      xid' ≠ xid ∧ s.pendingFu xid' = some fu' := by
    intro xid' fu' hfu'
    simp only [Client.complete, hxid] at hfu'
    by_cases hne : xid' = xid
    · simp [hne] at hfu'
    · rw [Function.update_of_ne hne] at hfu'
      exact ⟨hne, hfu'⟩
  refine ⟨hI.sender.untouched hinv hI.sender.out_mem hout, hI.in_mem, hI.owned, fun k hk => ?_,
    fun xid' fu' hfu' => ?_, fun xid₁ xid₂ fu₁ fu₂ hfu₁ hfu₂ => ?_⟩
  · change s.futures ≤ k at hk
    exact (hI.fresh k hk).untouched (hu k (by omega))
  · obtain ⟨hne, hfu'⟩ := hold xid' fu' hfu'
    obtain ⟨hxid', hlt, hfresh⟩ := hI.pending xid' fu' hfu'
    exact ⟨hxid', hlt, hfresh.untouched (hu _ fun heq => hne (hI.distinct _ _ _ _ hfu' hfu heq))⟩
  · exact hI.distinct _ _ _ _ (hold _ _ hfu₁).2 (hold _ _ hfu₂).2

/-- A reply that finds its Future is delivered to it. -/
theorem Inv.parse_found {r : Reply} {rest : List UInt8}
    (hcontent : s.world.content .in_ = frame r.bytes ++ rest) (hlt : r.bytes.length < 2 ^ 31)
    (h8 : SparseInt.valSize r.xid ≠ 8) {fu : Future} (hfu : s.pendingFu r.xid = some fu)
    (buf buf' : List UInt8) :
    ∃ W', s.parse buf buf' = .ok (s.complete W' fu r.errorCode) ∧
      Inv (s.complete W' fu r.errorCode) ∧ W'.content .in_ = rest ∧
      W'.content (.slice fu.reply) = r.payload := by
  obtain ⟨hxid, hreply, hfresh⟩ := hI.pending r.xid fu hfu
  obtain ⟨W₁, W₂, W₃, heq₁, heq₂, heq₃, hinv₃, hin₃, hu₃⟩ :=
    hI.parse_header hcontent hlt h8 buf buf'
  have hn : sizeT ((packetSize (frame r.bytes ++ rest)).toInt - SparseInt.valSize r.xid -
      SparseInt.valSize r.errorCode.toInt64) = r.payload.length := by
    have hlen : r.bytes.length = SparseInt.valSize r.xid +
        SparseInt.valSize r.errorCode.toInt64 + r.payload.length := by
      simp only [Reply.bytes, List.length_append, SparseInt.encode64_length, SparseInt.encode32_length]
    rw [packetSize_frame hlt, sizeT]
    omega
  -- `fu->reply_.read_from_marshal(in_, ..)`
  have hfresh₃ : W₃.Fresh (.slice fu.reply) := hfresh.untouched (hu₃ _ (by simp))
  obtain ⟨W₄, heq₄, ht⟩ := hinv₃.cut (j := .in_) (n := r.payload.length) (by simp) hfresh₃
    (by rw [hin₃, List.length_append]; omega)
  have hslice : W₄.content (.slice fu.reply) = r.payload := by
    rw [ht.content_eq, Function.update_self, World.fresh_content hfresh₃, hin₃, List.nil_append,
      List.take_left]
  have hin₄ : W₄.content .in_ = rest := by
    rw [ht.content_eq, Function.update_of_ne (by simp), Function.update_self, hin₃, List.drop_left]
  have hinv₄ : W₄.Inv s.sender.writers :=
    ht.inv.mono fun i hi => ⟨hi, fun h => hI.slice_not_mem _ (h ▸ hi)⟩
  have huntouched : ∀ k, k ≠ fu.reply → World.Untouched s.world W₄ (.slice k) :=
    fun k hk => (hu₃ _ (by simp)).trans (ht.untouched (by simpa using hk) (by simp))
  refine ⟨W₄, ?_, hI.complete hfu hinv₄ ?_ huntouched _, hin₄, hslice⟩
  · -- the `verify` holds, for the entry was found under the xid of the reply
    simp only [Client.parse, heq₁, ok_bind, heq₂, heq₃, hfu, verify_of hxid, hn, heq₄, pure_eq_ok]
  · -- the payload was cut from `in_`, `out_` is untouched
    exact (hu₃ _ (by simp)).trans (ht.untouched (by simp) (by simp))

/-- A reply that finds no Future leaves its payload behind. -/
theorem Inv.parse_missing {r : Reply} {rest : List UInt8}
    (hcontent : s.world.content .in_ = frame r.bytes ++ rest) (hlt : r.bytes.length < 2 ^ 31)
    (h8 : SparseInt.valSize r.xid ≠ 8) (hfu : s.pendingFu r.xid = none) (buf buf' : List UInt8) :
    ∃ W', s.parse buf buf' = .ok (s.skip W') ∧ Inv (s.skip W') ∧
      W'.content .in_ = r.payload ++ rest := by
  obtain ⟨W₁, W₂, W₃, heq₁, heq₂, heq₃, hinv₃, hin₃, hu₃⟩ :=
    hI.parse_header hcontent hlt h8 buf buf'
  have hI' := hI.untouched (hI.sender.untouched hinv₃ hI.sender.out_mem (hu₃ _ (by simp)))
    hI.in_mem subset_rfl fun k _ => hu₃ _ (by simp)
  refine ⟨W₃, ?_, ⟨hI'.sender, hI'.in_mem, hI'.owned, hI'.fresh, hI'.pending, hI'.distinct⟩, hin₃⟩
  simp only [Client.parse, heq₁, ok_bind, heq₂, heq₃, hfu, pure_eq_ok]

end Rounds

/-! ## Whole runs -/

/-- Outside of the frame loop `in_` holds no complete packet. -/
def Scanned (s : Client κ) : Prop := s.parsing = false → ¬ FrameReady (s.world.content .in_)

/-- A step in a run in which the peer sends `replies`. -/
def Next (replies : List Reply) (fit : Client κ → Op κ → Prop) (s : Client κ) (op : Op κ)
    (s' : Client κ) : Prop :=
  s.Allowed op ∧ fit s op ∧ s.step op = .ok s' ∧
    s'.received <+: (replies.map Reply.bytes).flatMap frame

/-- The steps that meet no defect: no batch of a positive multiple of 2^32 bytes, and no reply
    whose `xid` has an encoding of 8 bytes or whose payload finds no Future. -/
def Fit (replies : List Reply) (s : Client κ) : Op κ → Prop
  | .readFd avail resps => ∀ W rest got, s.world.readFromFd .in_ avail resps = .ok (W, rest, got) →
      got.length % 2 ^ 32 = 0 → got = []
  | .parse _ _ => ∀ r, replies[s.log.length]? = some r → FrameReady (s.world.content .in_) →
      SparseInt.valSize r.xid ≠ 8 ∧ (r.payload = [] ∨ s.pendingFu r.xid ≠ none)
  | _ => True

/-- What is asked of `handle_read` in a state of a run in which the peer sends `replies`. -/
structure InSync (replies : List Reply) (fit : Client κ → Op κ → Prop) (s : Client κ) : Prop where
  /-- what was parsed are whole replies, from the first one on -/
  stream : s.log.length ≤ replies.length ∧
    s.received = ((replies.take s.log.length).map Reply.bytes).flatMap frame ++ s.world.content .in_
  /-- outside of the frame loop no complete reply is left -/
  incomplete : s.parsing = false → ¬ FrameReady (s.world.content .in_)
  /-- a round consumes a complete reply and delivers it to the Future that waits for it -/
  delivers : ∀ r buf buf', replies[s.log.length]? = some r → s.parsing = true →
    FrameReady (s.world.content .in_) → fit s (.parse buf buf') →
    ∃ s', s.parse buf buf' = .ok s' ∧
      s'.world.content .in_ = (s.world.content .in_).drop (4 + r.bytes.length) ∧
      s'.log = s.log ++ [(s.pendingFu r.xid).map fun fu => ⟨fu, r.errorCode, r.payload⟩]
  /-- nothing else faults -/
  returns : ∀ op, s.Allowed op → fit s op → ∃ s', s.step op = .ok s'

/-- What was received and not yet parsed is a part of the replies that follow. -/
structure Following (replies : List Reply) (s : Client κ) : Prop where
  count : s.log.length ≤ replies.length
  stream : s.received =
    ((replies.take s.log.length).map Reply.bytes).flatMap frame ++ s.world.content .in_
  sub : s.received <+: (replies.map Reply.bytes).flatMap frame

section Runs

variable {replies : List Reply} (hreplies : ∀ r ∈ replies, r.bytes.length < 2 ^ 31) {s : Client κ}

include hreplies

/-- A complete packet in `in_` is the next reply. -/
theorem Following.next (hfol : s.Following replies) (hr : FrameReady (s.world.content .in_)) :
    ∃ r rest, replies[s.log.length]? = some r ∧ r ∈ replies ∧
      s.world.content .in_ = frame r.bytes ++ rest := by
  obtain ⟨t, ht⟩ := hfol.sub
  have hsplit : s.world.content .in_ ++ t =
      ((replies.drop s.log.length).map Reply.bytes).flatMap frame := by
    have hall : (replies.map Reply.bytes).flatMap frame =
        ((replies.take s.log.length).map Reply.bytes).flatMap frame ++
          ((replies.drop s.log.length).map Reply.bytes).flatMap frame := by
      rw [← List.flatMap_append, ← List.map_append, List.take_append_drop]
    rw [hfol.stream, hall, List.append_assoc] at ht
    exact List.append_cancel_left ht
  obtain ⟨q, qs, rest, hqs, hcontent, -⟩ := ready_of_frames (fun q hq => by
    obtain ⟨r, hmem, rfl⟩ := List.mem_map.mp hq
    exact hreplies r (List.mem_of_mem_drop hmem)) hsplit hr
  cases hdrop : replies.drop s.log.length with
  | nil => simp [hdrop] at hqs
  | cons r rs =>
    rw [hdrop, List.map_cons, List.cons.injEq] at hqs
    have hget : replies[s.log.length]? = some r := by
      rw [← List.head?_drop, hdrop]
      rfl
    exact ⟨r, rest, hget, List.mem_of_getElem? hget, by rw [hcontent, hqs.1]⟩

/-- A round of the frame loop on a complete reply. -/
theorem Inv.round (hI : s.Inv) (hfol : s.Following replies) (hr : FrameReady (s.world.content .in_))
    {buf buf' : List UInt8} (hfit : s.Fit replies (.parse buf buf')) :
    ∃ r rest s', replies[s.log.length]? = some r ∧ s.world.content .in_ = frame r.bytes ++ rest ∧
      s.parse buf buf' = .ok s' ∧ s'.Inv ∧ s'.world.content .in_ = rest ∧
      s'.log = s.log ++ [(s.pendingFu r.xid).map fun fu => ⟨fu, r.errorCode, r.payload⟩] ∧
      s'.received = s.received ∧ s'.parsing = s.parsing := by
  obtain ⟨r, rest, hget, hmem, hcontent⟩ := hfol.next hreplies hr
  obtain ⟨h8, hfound⟩ := hfit r hget hr
  refine ⟨r, rest, ?_⟩
  cases hfu : s.pendingFu r.xid with
  | some fu =>
    obtain ⟨W', heq, hinv, hin, hslice⟩ :=
      hI.parse_found hcontent (hreplies r hmem) h8 hfu buf buf'
    refine ⟨_, hget, hcontent, heq, hinv, hin, ?_, rfl, rfl⟩
    simp only [Client.complete, hslice, Option.map_some]
  | none =>
    obtain ⟨W', heq, hinv, hin⟩ := hI.parse_missing hcontent (hreplies r hmem) h8 hfu buf buf'
    have hempty : r.payload = [] := hfound.resolve_right fun hne => hne hfu
    rw [hempty, List.nil_append] at hin
    exact ⟨_, hget, hcontent, heq, hinv, hin, rfl, rfl, rfl⟩

omit hreplies in
/-- Steps that leave `in_` alone. -/
private theorem Following.same_in (hfol : s.Following replies) (s' : Client κ) (hscan : s.Scanned)
    (hp : s'.parsing = s.parsing) (hin : s'.world.content .in_ = s.world.content .in_)
    (hrec : s'.received = s.received) (hlog : s'.log = s.log) :
    s'.Scanned ∧ s'.Following replies := by
  refine ⟨fun hp' => ?_, ?_, ?_, ?_⟩
  · rw [hin]
    exact hscan (hp ▸ hp')
  · rw [hlog]
    exact hfol.count
  · rw [hrec, hlog, hin]
    exact hfol.stream
  · rw [hrec]
    exact hfol.sub

/-- **One step** that meets no defect returns and keeps the client in step with the stream. -/
theorem Inv.step (hI : s.Inv) (hscan : s.Scanned) (hfol : s.Following replies) {op : Op κ}
    (hop : s.Allowed op) (hfit : s.Fit replies op) :
    ∃ s', s.step op = .ok s' ∧ s'.Inv ∧ s'.Scanned ∧
      (s'.received <+: (replies.map Reply.bytes).flatMap frame → s'.Following replies) := by
  cases op with
  | beginRequest t buf rpcId =>
    -- a request writes to `out_` only
    obtain ⟨W', bm, heq, hinv, hcontent⟩ := hI.beginRequest hop t buf rpcId
    have hsame := hfol.same_in (s.addFuture (s.sender.started t W' bm
      (requestHeader buf s.xidCounter rpcId).bytes)) hscan rfl hcontent rfl rfl
    exact ⟨_, heq, hinv, hsame.1, fun _ => hsame.2⟩
  | send op =>
    obtain ⟨sender', heq, hinv, -, hcontent⟩ := hI.send hop
    have hsame := hfol.same_in { s with sender := sender' } hscan rfl hcontent rfl rfl
    exact ⟨_, by simp only [Client.step, heq, ok_bind, pure_eq_ok], hinv, hsame.1, fun _ => hsame.2⟩
  | readFd avail resps =>
    obtain ⟨W', k, heq, hread, hinv, hcontent⟩ := hI.readFd avail resps
    refine ⟨_, by simp only [Client.step, heq, ok_bind, pure_eq_ok], hinv, fun hp => ?_,
      fun hsub => ⟨hfol.count, ?_, hsub⟩⟩
    · -- a batch whose `int` length is 0 is empty, so that nothing new is complete
      have hzero : (avail.take k).length % 2 ^ 32 = 0 := by simpa [fill] using hp
      change ¬ FrameReady (W'.content .in_)
      rw [hcontent, hfit _ _ _ hread hzero, List.append_nil]
      exact hscan hop
    · -- what came goes behind what was there
      change s.received ++ avail.take k = _ ++ W'.content .in_
      rw [hcontent, ← List.append_assoc]
      exact congrArg (· ++ avail.take k) hfol.stream
  | parse buf buf' =>
    by_cases hr : FrameReady (s.world.content .in_)
    · -- a round consumes one reply to the last byte
      obtain ⟨r, rest, s', hget, hcontent, heq, hinv, hin, hlog, hrec, hpars⟩ :=
        hI.round hreplies hfol hr hfit
      refine ⟨s', heq, hinv, fun hp => ?_, fun hsub => ⟨?_, ?_, hsub⟩⟩
      · -- the loop goes on
        rw [hpars, show s.parsing = true from hop] at hp
        exact absurd hp (by simp)
      · -- one reply more is done
        have := (List.getElem?_eq_some_iff.mp hget).1
        rw [hlog, List.length_append, List.length_singleton]
        omega
      · -- `in_` has lost exactly the bytes of this reply
        rw [hrec, hin, hlog, List.length_append, List.length_singleton, List.take_add_one, hget,
          hfol.stream, hcontent]
        simp
    · -- no whole frame: the loop ends and nothing has changed
      obtain ⟨heq, hinv⟩ := hI.parse_not_ready hr buf buf'
      exact ⟨_, heq, hinv, fun _ => hr, fun hsub => ⟨hfol.count, hfol.stream, hsub⟩⟩

end Runs

/-- **The reply stream stays in sync** in every run in which every reply has an `xid` outside of
    the 8-byte class and, if it has a payload, finds its Future, and no batch is a positive
    multiple of 2^32 bytes. -/
theorem reply_stream_in_sync (replies : List Reply)
    (hreplies : ∀ r ∈ replies, r.bytes.length < 2 ^ 31) (h : Heap) (ops : List (Op κ)) (s : Client κ)
    (hrun : Steps (Next replies (Fit replies)) (init h) ops s) :
    s.InSync replies (Fit replies) := by
  have hI : s.Inv ∧ s.Scanned ∧ s.Following replies := by
    refine Steps.invariant (P := fun s => s.Inv ∧ s.Scanned ∧ s.Following replies) ?_ hrun
      ⟨inv_init h, fun _ => not_frameReady_nil, ⟨Nat.zero_le _, rfl, List.nil_prefix⟩⟩
    rintro s op s' ⟨hI, hscan, hfol⟩ ⟨hop, hfit, hstep, hsub⟩
    obtain ⟨s'', heq, hinv, hscan', hfol'⟩ := hI.step hreplies hscan hfol hop hfit
    obtain rfl : s'' = s' := by simpa using heq.symm.trans hstep
    exact ⟨hinv, hscan', hfol' hsub⟩
  obtain ⟨hI, hscan, hfol⟩ := hI
  refine ⟨⟨hfol.count, hfol.stream⟩, hscan, fun r buf buf' hget hp hr hfit => ?_, fun op hop hfit => ?_⟩
  · obtain ⟨r', rest, s', hget', hcontent, heq, -, hin, hlog, -⟩ := hI.round hreplies hfol hr hfit
    obtain rfl : r' = r := by simpa using hget'.symm.trans hget
    refine ⟨s', heq, ?_, hlog⟩
    rw [hin, hcontent, List.drop_left' (by rw [frame_length])]
  · obtain ⟨s', heq, -⟩ := hI.step hreplies hscan hfol hop hfit
    exact ⟨s', heq⟩

/-! ## Runs of one thread -/

/-- Checks that the only thread, or `handle_read`, can take a step. -/
def ready (s : Client Unit) : Op Unit → Bool
  | .beginRequest _ _ _ => s.sender.holder = none
  | .readFd _ _ => s.parsing = false
  | .parse _ _ => s.parsing = true
  | .send (.endMessage t) => s.sender.holder = some t
  | .send _ => false

theorem allowed_of_ready {s : Client Unit} {op : Op Unit} (hop : s.ready op = true) :
    s.Allowed op := by
  cases op with
  | send op => cases op <;> simp_all [ready, Allowed, Sender.Allowed, SendOp.names]
  | beginRequest _ _ _ | readFd _ _ | parse _ _ => simpa [ready, Allowed] using hop

/-- Checks that a step meets no defect. -/
def fits (replies : List Reply) (s : Client Unit) : Op Unit → Bool
  | .readFd avail resps =>
    match s.world.readFromFd .in_ avail resps with
    | .ok (_, _, got) => got.length % 2 ^ 32 = 0 → got = []
    | .error _ => true
  | .parse _ _ =>
    replies[s.log.length]?.all fun r =>
      SparseInt.valSize r.xid ≠ 8 ∧ (r.payload = [] ∨ s.pendingFu r.xid ≠ none)
  | _ => true

theorem fit_of_fits {replies : List Reply} {s : Client Unit} {op : Op Unit}
    (hop : s.fits replies op = true) : s.Fit replies op := by
  cases op with
  | readFd avail resps =>
    intro W rest got hread
    simp only [fits, hread] at hop
    exact of_decide_eq_true hop
  | parse buf buf' =>
    intro r hget _
    simp only [fits, hget, Option.all_some] at hop
    exact of_decide_eq_true hop
  | beginRequest _ _ _ | send _ => trivial

/-- Checks that the peer sends no more than `replies`. -/
def follows (replies : List Reply) (s : Client Unit) (op : Op Unit) : Bool :=
  (s.step op).toOption.all fun s' => s'.received <+: (replies.map Reply.bytes).flatMap frame

/-- A run is found by evaluation. -/
theorem reach_of_checked (check : Client Unit → Op Unit → Bool) {fit : Client Unit → Op Unit → Prop}
    (hcheck : ∀ s op, check s op = true → fit s op) {replies : List Reply} {ops : List (Op Unit)}
    {P : Client Unit → Prop} [DecidablePred P]
    (hrun : (ops.foldlM (checked (fun s op => s.ready op && check s op && s.follows replies op)
      Client.step) (init .empty)).any (P ·) = true) :
    ∃ s, Steps (Next replies fit) (init .empty) ops s ∧ P s := by
  apply Steps.reach_of_checked _ _ _ hrun
  intro s op s' hop hstep
  simp only [Bool.and_eq_true] at hop
  obtain ⟨⟨hready, hok⟩, hfollows⟩ := hop
  refine ⟨allowed_of_ready hready, hcheck s op hok, hstep, ?_⟩
  rw [follows, hstep] at hfollows
  exact of_decide_eq_true hfollows

/-- A request is sent, and its reply is received together with a late one. -/
def twoReplies : List (Op Unit) :=
  [.beginRequest () [] 7, .send (.endMessage ()),
    .readFd (([⟨0, 3, [5, 6]⟩, ⟨9, 0, []⟩] : List Reply).map Reply.bytes |>.flatMap frame) [20],
    .parse [] [], .parse [] [], .parse [] []]

/-- The first reply completes the Future that waits for it, and the late one behind it, which has no
    payload, does no harm. -/
theorem reply_stream_in_sync_two_replies :
    ∃ s : Client Unit,
      Steps (Next [⟨0, 3, [5, 6]⟩, ⟨9, 0, []⟩] (Fit [⟨0, 3, [5, 6]⟩, ⟨9, 0, []⟩])) (init .empty)
        twoReplies s ∧
      (s.log = [some ⟨⟨0, 0⟩, 3, [5, 6]⟩, none] ∧ s.parsing = false) ∧
      s.InSync [⟨0, 3, [5, 6]⟩, ⟨9, 0, []⟩] (Fit [⟨0, 3, [5, 6]⟩, ⟨9, 0, []⟩]) := by
  obtain ⟨s, hrun, hs⟩ : ∃ s : Client Unit,
      Steps (Next [⟨0, 3, [5, 6]⟩, ⟨9, 0, []⟩] (Fit [⟨0, 3, [5, 6]⟩, ⟨9, 0, []⟩])) (init .empty)
        twoReplies s ∧
      (s.log = [some ⟨⟨0, 0⟩, 3, [5, 6]⟩, none] ∧ s.parsing = false) :=
    reach_of_checked (fits _) (fun _ _ => fit_of_fits) (by decide +kernel)
  exact ⟨s, hrun, hs, reply_stream_in_sync _ (by decide) _ _ _ hrun⟩

/-- A late reply with one byte of payload: the byte stays in front of the next reply. -/
theorem late_reply_not_in_sync :
    ¬ ∀ (ops : List (Op Unit)) (s : Client Unit),
      Steps (Next [⟨5, 0, [1]⟩] fun _ _ => True) (init .empty) ops s →
        s.InSync [⟨5, 0, [1]⟩] fun _ _ => True := by
  intro hsync
  obtain ⟨s, hrun, hlog, hp, hcontent, hleft⟩ : ∃ s : Client Unit,
      Steps (Next [⟨5, 0, [1]⟩] fun _ _ => True) (init .empty)
        [.readFd [3, 0, 0, 0, 5, 0, 1] [7]] s ∧
      s.log = [] ∧ s.parsing = true ∧ s.world.content .in_ = [3, 0, 0, 0, 5, 0, 1] ∧
      ((s.parse [] []).toOption.map fun s' => s'.world.content .in_) = some [1] :=
    reach_of_checked (fun _ _ => true) (fun _ _ _ => trivial) (by decide +kernel)
  have hready : FrameReady (s.world.content .in_) := hcontent ▸ by decide
  obtain ⟨s', heq, hin, -⟩ := (hsync _ s hrun).delivers ⟨5, 0, [1]⟩ [] [] (by rw [hlog]; rfl) hp hready
    trivial
  rw [heq] at hleft
  -- the round should have consumed the whole reply
  have hone : s'.world.content .in_ = [1] := Option.some.inj hleft
  rw [hone, hcontent] at hin
  exact absurd hin (by decide)

end Client

end SimpleRpc.Rpc
