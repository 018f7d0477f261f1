import SimpleRpc.Rpc.Receiver

/-!
# `ServerTcpConnection::handle_read`

`handle_read` fills `in_`, cuts complete packets off it as Requests, and then dispatches these:
to the handler of their `rpc_id`, or with a reply of its own if there is none. It runs in the
poll thread, while handlers reply from any thread.

## Layers

- **Code**: `readFd`, `parse` (one round of the frame loop) and `dispatch` (one round of the
  second loop); `io` says where `handle_read` stands
- **System**: `step`, these rounds interleaved with whatever handlers and `handle_write` do
- **Invariant**: `Inv`, the bytes received are the packets cut off and what `in_` still holds

## Main results

- `Inv.step`: one step, from a state in which `in_` does not start with a malformed packet
- `handle_read_sound`: every run that meets no packet whose size is negative or too small
- `zero_size_not_sound`: four zero bytes from a peer abort the server
- `stuck_behind_negative`: behind a size below -4 no packet is ever taken

## Model

`handle_read` uses `out_l_` only around its own replies, so that the rounds of its loops are the
steps that can be told apart. The set that suppresses repeated warnings is left out. A thread is
named by `Option κ`, where `none` stands for `handle_read` itself.
-/

namespace SimpleRpc.Rpc

open SimpleRpc.Lib SimpleRpc.Base

/-- A `Request`: its Marshal `m` is the slice of that number. -/
structure Request where
  m : Nat
  xid : Int64
  deriving DecidableEq

def EINVAL : Int32 := 22

def ENOENT : Int32 := 2

/-- What became of a packet. -/
inductive Outcome (η : Type) where
  | handed (handler : η) (xid : Int64) (rpcId : Int32) (args : List UInt8)
  | einval (xid : Int64)
  | enoent (xid : Int64)
  deriving DecidableEq

/-- Where `handle_read` stands, with `complete_requests`. -/
inductive Io where
  | idle
  | parsing (completeRequests : List Request)
  | dispatching (completeRequests : List Request)
  deriving DecidableEq

/-- The requests that `handle_read` still has. -/
def Io.waiting : Io → List Request
  | .idle => []
  | .parsing reqs | .dispatching reqs => reqs

/-- A connection of a server whose handlers are of type `η`. -/
structure ServerTcpConnection (κ η : Type) where
  sender : Sender ConnName (Option κ)
  io : Io
  /-- how many Requests were allocated -/
  requests : Nat
  /-- ghost: everything read from the socket -/
  received : List UInt8
  /-- ghost: the packets cut off, with their `xid` -/
  packets : List (Int64 × List UInt8)
  /-- ghost: what became of the packets that were dispatched -/
  outcomes : List (Outcome η)

namespace ServerTcpConnection

variable {κ η : Type}

/-- A connection that was just accepted. -/
def init (h : Heap) : ServerTcpConnection κ η :=
  ⟨.init h ConnName.owned, .idle, 0, [], [], []⟩

/-- The Marshals of the process. -/
def world (s : ServerTcpConnection κ η) : World ConnName := s.sender.world

/-- The same connection after an operation on its Marshals. -/
def withWorld (s : ServerTcpConnection κ η) (W : World ConnName) : ServerTcpConnection κ η :=
  { s with sender := { s.sender with world := W } }

/-! ## The rounds of `handle_read` -/

/-- `if (bytes_read == 0) return;` where `bytes_read` is an `int`. -/
def fill (s : ServerTcpConnection κ η) (W : World ConnName) (got : List UInt8) :
    ServerTcpConnection κ η :=
  { s.withWorld W with io := if got.length % 2 ^ 32 = 0 then .idle else .parsing []
                       received := s.received ++ got }

/-- `int bytes_read = in_.read_from_fd(sock_);` also returns what the kernel still has queued. -/
def readFd (s : ServerTcpConnection κ η) (avail : List UInt8) (resps : List Nat) :
    Except Fault (ServerTcpConnection κ η × List UInt8) := do
  let (W, rest, got) ← s.world.readFromFd .in_ avail resps
  pure (s.fill W got, rest)

/-- `complete_requests.push_back(req)` -/
def cutOff (s : ServerTcpConnection κ η) (reqs : List Request) (W : World ConnName) (xid : Int64)
    (packet : List UInt8) : ServerTcpConnection κ η :=
  { s.withWorld W with io := .parsing (reqs ++ [⟨s.requests, xid⟩]), requests := s.requests + 1
                       packets := s.packets ++ [(xid, packet)] }

/-- One round of the frame loop; `buf` is what the local array of the `v64` operator held. -/
def parse (s : ServerTcpConnection κ η) (buf : List UInt8) :
    Except Fault (ServerTcpConnection κ η) :=
  match s.io with
  | .parsing reqs => do
    match ← takeSize s.world with
    | some (W, packetSize) =>
      let n := sizeT packetSize.toInt
      let (W, nFetch) ← W.readFromMarshal (.slice s.requests) .in_ n
      verify (nFetch = n)
      let packet := W.content (.slice s.requests)
      let (xid, W) ← W.run (.slice s.requests) (MarshalM.getV64 buf)
      pure (s.cutOff reqs W xid packet)
    | none => pure { s with io := .dispatching reqs }
  | _ => pure s

/-- `begin_reply(req, error_code); end_reply();` -/
def replyError (s : ServerTcpConnection κ η) (buf buf' : List UInt8) (xid : Int64)
    (errorCode : Int32) : Except Fault (ServerTcpConnection κ η) := do
  let sender ← s.sender.beginReply .out_ none buf buf' xid errorCode
  pure { s with sender := sender.endMessage .out_ none }

/-- On to the next request. -/
def served (s : ServerTcpConnection κ η) (reqs : List Request) (outcome : Outcome η) :
    ServerTcpConnection κ η :=
  { s with io := .dispatching reqs, outcomes := s.outcomes ++ [outcome] }

/-- One round of the loop over `complete_requests`. -/
def dispatch (handlers : Int32 → Option η) (s : ServerTcpConnection κ η) (buf buf' : List UInt8) :
    Except Fault (ServerTcpConnection κ η) :=
  match s.io with
  | .dispatching (req :: reqs) => do
    if s.world.contentSize (.slice req.m) < 4 then
      -- rpc id not provided
      let s ← s.replyError buf buf' req.xid EINVAL
      pure (s.served reqs (.einval req.xid))
    else
      let (rpcId, W) ← s.world.run (.slice req.m) MarshalM.getI32
      let s := s.withWorld W
      match handlers rpcId with
      | some handler =>
        pure (s.served reqs (.handed handler req.xid rpcId (s.world.content (.slice req.m))))
      | none =>
        let s ← s.replyError buf buf' req.xid ENOENT
        pure (s.served reqs (.enoent req.xid))
  | .dispatching [] => pure { s with io := .idle }
  | _ => pure s

/-! ## The system -/

/-- A round of `handle_read`, or a step of somebody else. -/
inductive Op (κ : Type) where
  | readFd (avail : List UInt8) (resps : List Nat)
  | parse (buf : List UInt8)
  | dispatch (buf buf' : List UInt8)
  | send (op : SendOp ConnName (Option κ))

/-- One step. -/
def step (handlers : Int32 → Option η) (s : ServerTcpConnection κ η) :
    Op κ → Except Fault (ServerTcpConnection κ η)
  | .readFd avail resps => do
    let (s, _) ← s.readFd avail resps
    pure s
  | .parse buf => s.parse buf
  | .dispatch buf buf' => s.dispatch handlers buf buf'
  | .send op => do
    let sender ← s.sender.step .out_ op
    pure { s with sender := sender }

/-- The Marshals that others may use: Requests that were dispatched and their own. -/
def Foreign (s : ServerTcpConnection κ η) : ConnName → Prop
  | .in_ | .out_ => False
  | .slice k => k < s.requests ∧ ∀ req ∈ s.io.waiting, req.m ≠ k
  | .user _ => True

/-- `handle_read` has to reply to the request itself. -/
def Unserved (handlers : Int32 → Option η) (s : ServerTcpConnection κ η) (req : Request) : Prop :=
  s.world.contentSize (.slice req.m) < 4 ∨
    handlers (i32OfBytes (s.world.peek (.slice req.m) 4)) = none

/-- When a step can be taken: `handle_read` is at this place and has the lock if it needs it,
    and the others use the connection as documented. -/
def Allowed (handlers : Int32 → Option η) (s : ServerTcpConnection κ η) : Op κ → Prop
  | .readFd _ _ => s.io = .idle
  | .parse _ => ∃ reqs, s.io = .parsing reqs
  | .dispatch _ _ => ∃ reqs, s.io = .dispatching reqs ∧
      ∀ req ∈ reqs.head?, s.Unserved handlers req → s.sender.holder = none
  | .send op => s.sender.Allowed .out_ op ∧ (∀ i ∈ op.names, s.Foreign i) ∧
      op.holder none ≠ some none

/-- A step that can be taken and satisfies `fit`. -/
def Next (handlers : Int32 → Option η) (fit : ServerTcpConnection κ η → Op κ → Prop)
    (s : ServerTcpConnection κ η) (op : Op κ) (s' : ServerTcpConnection κ η) : Prop :=
  s.Allowed handlers op ∧ fit s op ∧ s.step handlers op = .ok s'

/-! ## What packets deserve -/

/-- The `xid` that `operator>>` finds in front of a packet. -/
def xidOf (buf packet : List UInt8) : Int64 :=
  SparseInt.loadI64 (SparseInt.storeAt buf (packet.take (SparseInt.bufSize (packet.getD 0 0))))

/-- What follows the `xid` of a packet. -/
def argsOf (packet : List UInt8) : List UInt8 :=
  packet.drop (SparseInt.bufSize (packet.getD 0 0))

/-- What has to become of a packet with this `xid`. -/
def outcomeOf (handlers : Int32 → Option η) (xid : Int64) (packet : List UInt8) : Outcome η :=
  if (argsOf packet).length < 4 then .einval xid
  else
    let rpcId := i32OfBytes ((argsOf packet).take 4)
    match handlers rpcId with
    | some handler => .handed handler xid rpcId ((argsOf packet).drop 4)
    | none => .enoent xid

end ServerTcpConnection

/-- The `xid` of the request. -/
def Outcome.xid {η : Type} : Outcome η → Int64
  | .handed _ xid _ _ | .einval xid | .enoent xid => xid

/-- The reply that `handle_read` has to send itself. -/
def Outcome.errorReply {η : Type} : Outcome η → Option (List UInt8)
  | .handed _ _ _ _ => none
  | .einval xid => some (SparseInt.encode64 xid ++ SparseInt.encode32 EINVAL)
  | .enoent xid => some (SparseInt.encode64 xid ++ SparseInt.encode32 ENOENT)

namespace ServerTcpConnection

variable {κ η : Type}

theorem outcomeOf_xid (handlers : Int32 → Option η) (xid : Int64) (packet : List UInt8) :
    (outcomeOf handlers xid packet).xid = xid := by
  simp only [outcomeOf]
  split
  · rfl
  · split <;> rfl

/-! ## The invariant -/

/-- The `xid` of a request and what its Marshal still holds. -/
def view (W : World ConnName) (req : Request) : Int64 × List UInt8 :=
  (req.xid, W.content (.slice req.m))

structure Inv (handlers : Int32 → Option η) (s : ServerTcpConnection κ η) : Prop where
  sender : s.sender.Inv .out_
  in_mem : .in_ ∈ s.sender.writers
  owned : s.sender.writers ⊆ ConnName.owned
  not_io : s.sender.holder ≠ some none
  fresh : ∀ k, s.requests ≤ k → s.world.Fresh (.slice k)
  names : (s.io.waiting.map Request.m).Nodup
  names_lt : ∀ req ∈ s.io.waiting, req.m < s.requests
  stream : s.received = (s.packets.map Prod.snd).flatMap frame ++ s.world.content .in_
  wellFormed : ∀ pk ∈ s.packets, WellFormed pk.2
  progress : ∃ old new, s.packets = old ++ new ∧
    s.outcomes = old.map (fun pk => outcomeOf handlers pk.1 pk.2) ∧
    s.io.waiting.map (view s.world) = new.map fun pk => (pk.1, argsOf pk.2)
  replies : (s.sender.done.filter fun msg => msg.1.isNone).map Prod.snd =
    s.outcomes.filterMap Outcome.errorReply

theorem inv_init (handlers : Int32 → Option η) (h : Heap) :
    (init h : ServerTcpConnection κ η).Inv handlers where
  sender := Sender.inv_init h (by simp [ConnName.owned])
  in_mem := by simp [init, Sender.init, ConnName.owned]
  owned := subset_rfl
  not_io := by simp [init, Sender.init]
  fresh _ _ := rfl
  names := List.nodup_nil
  names_lt := by simp [init, Io.waiting]
  stream := rfl
  wellFormed := by simp [init]
  progress := ⟨[], [], rfl, rfl, rfl⟩
  replies := rfl

/-- Requests whose Marshals were left alone look the same. -/
theorem view_untouched {W W' : World ConnName} {reqs : List Request}
    (hu : ∀ req ∈ reqs, World.Untouched W W' (.slice req.m)) :
    reqs.map (view W') = reqs.map (view W) :=
  List.map_congr_left fun req hreq => by rw [view, (hu req hreq).content_eq, view]

section Rounds

variable {handlers : Int32 → Option η} {s : ServerTcpConnection κ η} (hI : s.Inv handlers)

include hI

theorem Inv.slice_not_mem (k : Nat) : ConnName.slice k ∉ s.sender.writers :=
  fun hmem => hI.owned hmem k rfl

/-- `read_from_fd` puts more bytes behind those that `in_` holds. -/
theorem Inv.readFd (hidle : s.io = .idle) (avail : List UInt8) (resps : List Nat) :
    ∃ W' k, s.readFd avail resps = .ok (s.fill W' (avail.take k), avail.drop k) ∧
      s.world.readFromFd .in_ avail resps = .ok (W', avail.drop k, avail.take k) ∧
      Inv handlers (s.fill W' (avail.take k)) ∧
      W'.content .in_ = s.world.content .in_ ++ avail.take k := by
  obtain ⟨W', k, heq, hk, hu⟩ := hI.sender.world.readFromFd hI.in_mem avail resps
  have hwaiting : (s.fill W' (avail.take k)).io.waiting = [] := by
    simp only [fill]
    split <;> rfl
  refine ⟨W', k, ?_, heq, ⟨hI.sender.untouched hu.inv hI.sender.out_mem (hu.untouched (by simp)),
    hI.in_mem, hI.owned, hI.not_io, ?_, ?_, ?_, ?_, hI.wellFormed, ?_, hI.replies⟩, hu.content_same⟩
  · simp only [ServerTcpConnection.readFd, world, heq, ok_bind, pure_eq_ok]
  · exact fun j hj => hu.fresh_of_ne (by simp) (hI.fresh j hj)
  · rw [hwaiting]
    exact List.nodup_nil
  · rw [hwaiting]
    simp
  · change _ = _ ++ W'.content .in_
    rw [hu.content_same, ← List.append_assoc]
    exact congrArg (· ++ avail.take k) hI.stream
  · rw [hwaiting]
    obtain ⟨old, new, hpackets, hout, hnew⟩ := hI.progress
    rw [hidle] at hnew
    exact ⟨old, new, hpackets, hout, hnew⟩

/-- The frame loop ends when the next packet is not complete. -/
theorem Inv.parse_not_ready {reqs : List Request} (hio : s.io = .parsing reqs)
    (hr : ¬ FrameReady (s.world.content .in_)) (buf : List UInt8) :
    s.parse buf = .ok { s with io := .dispatching reqs } ∧
      Inv handlers { s with io := .dispatching reqs } := by
  refine ⟨?_, hI.sender, hI.in_mem, hI.owned, hI.not_io, hI.fresh, ?_, ?_, hI.stream, hI.wellFormed,
    ?_, hI.replies⟩
  · simp only [ServerTcpConnection.parse, hio, world, takeSize_not_ready hI.sender.world hr, ok_bind,
      pure_eq_ok]
  · have hnames := hI.names
    rw [hio] at hnames
    exact hnames
  · have hlt := hI.names_lt
    rw [hio] at hlt
    exact hlt
  · have hprogress := hI.progress
    rw [hio] at hprogress
    exact hprogress

/-- What the Marshals hold after a round that cuts off a packet. -/
structure CutPacket (s : ServerTcpConnection κ η) (W' : World ConnName)
    (packet rest : List UInt8) : Prop where
  inv : W'.Inv s.sender.writers
  in_eq : W'.content .in_ = rest
  slice_eq : W'.content (.slice s.requests) = argsOf packet
  untouched : ∀ j, j ≠ .in_ → j ≠ .slice s.requests → World.Untouched s.world W' j

/-- A packet that is complete and not malformed is cut off. -/
theorem Inv.parse_ready {reqs : List Request} (hio : s.io = .parsing reqs) {packet rest : List UInt8}
    (hcontent : s.world.content .in_ = frame packet ++ rest) (hwf : WellFormed packet)
    (hr : FrameReady (s.world.content .in_)) (buf : List UInt8) :
    ∃ W', s.parse buf = .ok (s.cutOff reqs W' (xidOf buf packet) packet) ∧
      CutPacket s W' packet rest := by
  have hsize : (packetSize (s.world.content .in_)).toInt = packet.length := by
    rw [hcontent, packetSize_frame hwf.lt]
  have hn : sizeT (packetSize (s.world.content .in_)).toInt = packet.length := by
    rw [sizeT_nonneg (by omega), hsize, Int.toNat_natCast]
  -- the size
  obtain ⟨W₁, heq₁, hu₁⟩ := takeSize_ready hI.sender.world hr
  have hin₁ : W₁.content .in_ = packet ++ rest := by
    rw [hu₁.content_same]
    change (s.world.content .in_).drop 4 = _
    rw [hcontent, frame, List.append_assoc, List.drop_left' (leBytes_length ..)]
  -- the slice
  have hfresh : W₁.Fresh (.slice s.requests) :=
    hu₁.fresh_of_ne (by simp) (hI.fresh _ (Nat.le_refl _))
  obtain ⟨W₂, heq₂, ht⟩ := hu₁.inv.cut (j := .in_) (n := packet.length) (by simp) hfresh
    (by rw [hin₁, List.length_append]; omega)
  have hslice₂ : W₂.content (.slice s.requests) = packet := by
    rw [ht.content_eq, Function.update_self, World.fresh_content hfresh, hin₁, List.nil_append,
      List.take_left]
  have hin₂ : W₂.content .in_ = rest := by
    rw [ht.content_eq, Function.update_of_ne (by simp), Function.update_self, hin₁, List.drop_left]
  have hinv₂ : W₂.Inv s.sender.writers :=
    ht.inv.mono fun i hi => ⟨hi, fun h => hI.slice_not_mem _ (h ▸ hi)⟩
  -- the xid
  have hget := gets_getV64_bytes buf (packet.take (SparseInt.bufSize (packet.getD 0 0))) (by
    rw [List.length_take, Nat.min_eq_left hwf.xid, List.getD_eq_getElem?_getD,
      List.getElem?_take_of_lt (SparseInt.bufSize_pos _), ← List.getD_eq_getElem?_getD])
  obtain ⟨W₃, heq₃, hu₃⟩ := hinv₂.gets (i := .slice s.requests) hget
    (by rw [hslice₂, List.take_append_drop])
  refine ⟨W₃, ?_, hu₃.inv, ?_, hu₃.content_same, fun j hj hj' =>
    ((hu₁.untouched hj).trans (ht.untouched hj' hj)).trans (hu₃.untouched hj')⟩
  · simp only [ServerTcpConnection.parse, hio, world, heq₁, ok_bind, pure_eq_ok]
    simp only [world] at hn
    simp only [hn, heq₂, ok_bind, verify_of, hslice₂, heq₃]
    rfl
  · rw [hu₃.content_of_ne (by simp), hin₂]

/-- The packet that was cut off waits behind the others. -/
theorem Inv.cutOff {reqs : List Request} (hio : s.io = .parsing reqs) {packet rest : List UInt8}
    (hcontent : s.world.content .in_ = frame packet ++ rest) (hwf : WellFormed packet)
    {W' : World ConnName} (hcut : CutPacket s W' packet rest) (xid : Int64) :
    Inv handlers (s.cutOff reqs W' xid packet) := by
  have hwaiting : s.io.waiting = reqs := by rw [hio]; rfl
  -- the Marshal of the new Request has a name of its own
  have hlt : ∀ req ∈ reqs, req.m < s.requests := fun req hreq => hI.names_lt req (hwaiting ▸ hreq)
  refine ⟨hI.sender.untouched hcut.inv hI.sender.out_mem (hcut.untouched _ (by simp) (by simp)),
    hI.in_mem, hI.owned, hI.not_io, fun j hj => ?_, ?_, fun req hreq => ?_, ?_, fun pk hpk => ?_, ?_,
    hI.replies⟩
  · -- the Marshal of the next Request is still unused
    change s.requests + 1 ≤ j at hj
    exact (hI.fresh j (by omega)).untouched (hcut.untouched _ (by simp) (by simp; omega))
  · -- names stay distinct
    change ((reqs ++ [(⟨s.requests, xid⟩ : Request)]).map Request.m).Nodup
    rw [List.map_append, List.nodup_append]
    refine ⟨hwaiting ▸ hI.names, by simp, ?_⟩
    rintro _ ha _ hb rfl
    obtain ⟨req, hreq, rfl⟩ := List.mem_map.mp ha
    have := hlt req hreq
    simp at hb
    omega
  · -- and below the counter
    change req ∈ reqs ++ [⟨s.requests, xid⟩] at hreq
    change req.m < s.requests + 1
    rcases List.mem_append.mp hreq with hreq | hreq
    · have := hlt req hreq
      omega
    · obtain rfl := List.mem_singleton.mp hreq
      simp
  · -- the packet has left `in_` and joined the packets
    change s.received = ((s.packets ++ [(xid, packet)]).map Prod.snd).flatMap frame ++ W'.content .in_
    rw [hI.stream, hcut.in_eq, hcontent, List.map_append, List.flatMap_append]
    simp
  · -- every packet is well formed
    change pk ∈ s.packets ++ [(xid, packet)] at hpk
    rcases List.mem_append.mp hpk with hpk | hpk
    · exact hI.wellFormed pk hpk
    · obtain rfl := List.mem_singleton.mp hpk
      exact hwf
  · -- it is behind those that wait for the second loop
    obtain ⟨old, new, hpackets, hout, hnew⟩ := hI.progress
    have hold : reqs.map (view W') = reqs.map (view s.world) := by
      refine view_untouched fun req hreq => hcut.untouched _ (by simp) ?_
      have := hlt req hreq
      simp
      omega
    refine ⟨old, new ++ [(xid, packet)], ?_, hout, ?_⟩
    · change s.packets ++ [(xid, packet)] = _
      rw [hpackets, List.append_assoc]
    · change (reqs ++ [(⟨s.requests, xid⟩ : Request)]).map (view W') = _
      rw [List.map_append, List.map_append, hold, ← hnew, hwaiting]
      simp [view, hcut.slice_eq]

end Rounds

/-! ## The second loop -/

/-- What a round of the second loop does to the connection: it uses the Marshal of `req` and
    sends the messages `sent`. -/
structure Serves (s : ServerTcpConnection κ η) (req : Request)
    (sender' : Sender ConnName (Option κ)) (sent : List (Option κ × List UInt8)) : Prop where
  inv : sender'.Inv .out_
  writers_eq : sender'.writers = s.sender.writers
  holder_eq : sender'.holder = s.sender.holder
  sent_eq : sender'.sent = s.sender.sent
  done_eq : sender'.done = s.sender.done ++ sent
  current_eq : ∀ t, s.sender.holder = some t → sender'.current = s.sender.current
  untouched : ∀ j, j ≠ .out_ → j ≠ .slice req.m → World.Untouched s.world sender'.world j

variable {handlers : Int32 → Option η} {s : ServerTcpConnection κ η}

theorem Serves.trans {req : Request} {sender₁ sender₂ : Sender ConnName (Option κ)}
    {sent : List (Option κ × List UInt8)} (h₁ : Serves s req sender₁ [])
    (h₂ : Serves { s with sender := sender₁ } req sender₂ sent) : Serves s req sender₂ sent where
  inv := h₂.inv
  writers_eq := h₂.writers_eq.trans h₁.writers_eq
  holder_eq := h₂.holder_eq.trans h₁.holder_eq
  sent_eq := h₂.sent_eq.trans h₁.sent_eq
  done_eq := by
    rw [h₂.done_eq]
    change sender₁.done ++ sent = _
    rw [h₁.done_eq, List.append_nil]
  current_eq t ht := (h₂.current_eq t (h₁.holder_eq.trans ht)).trans (h₁.current_eq t ht)
  untouched j hj hj' := (h₁.untouched j hj hj').trans (h₂.untouched j hj hj')

/-- `begin_reply(req, error_code); end_reply();` -/
theorem replyError_serves (hsender : s.sender.Inv .out_) (req : Request)
    (hfree : s.sender.holder = none) (buf buf' : List UInt8) (errorCode : Int32) :
    ∃ sender', s.replyError buf buf' req.xid errorCode = .ok { s with sender := sender' } ∧
      Serves s req sender'
        [(none, SparseInt.encode64 req.xid ++ SparseInt.encode32 errorCode)] := by
  obtain ⟨W₁, bm, heq, hinv₁, hu₁⟩ := hsender.beginMessage hfree none
    (replyHeader buf buf' req.xid errorCode)
  obtain ⟨hinv₂, hu₂⟩ := hinv₁.endMessage rfl
  refine ⟨_, ?_, hinv₂, rfl, hfree.symm, rfl, rfl, fun t ht => ?_,
    fun j hj _ => (hu₁ j hj).trans (hu₂ j hj)⟩
  swap
  · rw [hfree] at ht
    cases ht
  simp only [ServerTcpConnection.replyError, Sender.beginReply, heq, ok_bind, pure_eq_ok]

/-- The messages `handle_read` sends itself for an outcome. -/
def ownReplies (outcome : Outcome η) : List (Option κ × List UInt8) :=
  outcome.errorReply.toList.map fun bytes => (none, bytes)

/-- One round of the second loop does with a request what its packet deserves. -/
theorem dispatch_serves (hsender : s.sender.Inv .out_) {req : Request} {reqs : List Request}
    (hio : s.io = .dispatching (req :: reqs))
    (hlock : s.Unserved handlers req → s.sender.holder = none) {packet : List UInt8}
    (hargs : s.world.content (.slice req.m) = argsOf packet) (buf buf' : List UInt8) :
    ∃ sender', s.dispatch handlers buf buf' =
        .ok ({ s with sender := sender' }.served reqs (outcomeOf handlers req.xid packet)) ∧
      Serves s req sender' (ownReplies (outcomeOf handlers req.xid packet)) := by
  have hlen : s.world.contentSize (.slice req.m) = (argsOf packet).length := by
    rw [← hargs]
    exact World.contentSize_eq hsender.world.ok.ok _
  by_cases hshort : (argsOf packet).length < 4
  · -- rpc id not provided
    have houtcome : outcomeOf handlers req.xid packet = .einval req.xid := by
      simp [outcomeOf, hshort]
    obtain ⟨sender', heq, hs⟩ :=
      replyError_serves hsender req (hlock (.inl (by omega))) buf buf' EINVAL
    rw [houtcome]
    refine ⟨sender', ?_, hs⟩
    simp only [dispatch, hio, hlen, hshort, if_true, heq, ok_bind, pure_eq_ok]
  · -- the rpc id is read off the front of the Request
    have hget := gets_getI32_bytes
      (show ((argsOf packet).take 4).length = 4 by rw [List.length_take]; omega)
    obtain ⟨W₁, heq₁, hu₁⟩ := hsender.world.gets (i := .slice req.m) hget
      (by rw [List.take_append_drop]; exact hargs)
    replace heq₁ : s.world.run (.slice req.m) MarshalM.getI32 = .ok (_, W₁) := heq₁
    have hserves₁ : Serves s req { s.sender with world := W₁ } [] :=
      ⟨hsender.untouched hu₁.inv hsender.out_mem (hu₁.untouched (by simp)), rfl, rfl, rfl,
        (List.append_nil _).symm, fun _ _ => rfl, fun j _ hj => hu₁.untouched hj⟩
    cases hhandler : handlers (i32OfBytes ((argsOf packet).take 4)) with
    | some handler =>
      have houtcome : outcomeOf handlers req.xid packet = .handed handler req.xid
          (i32OfBytes ((argsOf packet).take 4)) ((argsOf packet).drop 4) := by
        simp [outcomeOf, hshort, hhandler]
      rw [houtcome]
      refine ⟨_, ?_, hserves₁⟩
      simp only [dispatch, hio, hlen, hshort, if_false, heq₁, ok_bind, pure_eq_ok, hhandler]
      rw [show (s.withWorld W₁).world.content (.slice req.m) = _ from hu₁.content_same, ← hio]
      rfl
    | none =>
      -- handler not found
      have houtcome : outcomeOf handlers req.xid packet = .enoent req.xid := by
        simp [outcomeOf, hshort, hhandler]
      have hfree : s.sender.holder = none := by
        refine hlock (.inr ?_)
        rw [World.peek_eq hsender.world.ok.ok (W := s.world), hargs, hhandler]
      obtain ⟨sender', heq, hs⟩ := replyError_serves (s := s.withWorld W₁) hserves₁.inv req hfree
        buf buf' ENOENT
      rw [houtcome]
      refine ⟨sender', ?_, hserves₁.trans hs⟩
      simp only [dispatch, hio, hlen, hshort, if_false, heq₁, ok_bind, pure_eq_ok, hhandler, heq]
      rw [← hio]
      rfl

section Dispatch

variable (hI : s.Inv handlers)

include hI

/-- The first request belongs to the first packet that was not dispatched. -/
theorem Inv.first_packet {req : Request} {reqs : List Request}
    (hio : s.io = .dispatching (req :: reqs)) :
    ∃ old packet new, s.packets = old ++ (req.xid, packet) :: new ∧
      s.outcomes = old.map (fun pk => outcomeOf handlers pk.1 pk.2) ∧
      s.world.content (.slice req.m) = argsOf packet ∧
      reqs.map (view s.world) = new.map fun pk => (pk.1, argsOf pk.2) := by
  obtain ⟨old, new, hpackets, hout, hnew⟩ := hI.progress
  rw [hio] at hnew
  cases new with
  | nil => simp [Io.waiting] at hnew
  | cons pk new =>
    simp only [Io.waiting, List.map_cons, List.cons.injEq, view, Prod.mk.injEq] at hnew
    obtain ⟨⟨hxid, hargs⟩, hnew⟩ := hnew
    exact ⟨old, pk.2, new, by rw [hpackets, hxid], hout, hargs, hnew⟩

theorem Inv.served {req : Request} {reqs : List Request} (hio : s.io = .dispatching (req :: reqs))
    {old new : List (Int64 × List UInt8)} {packet : List UInt8}
    (hpackets : s.packets = old ++ (req.xid, packet) :: new)
    (hout : s.outcomes = old.map (fun pk => outcomeOf handlers pk.1 pk.2))
    (hnew : reqs.map (view s.world) = new.map fun pk => (pk.1, argsOf pk.2))
    {sender' : Sender ConnName (Option κ)}
    (hs : Serves s req sender' (ownReplies (outcomeOf handlers req.xid packet))) :
    Inv handlers ({ s with sender := sender' }.served reqs (outcomeOf handlers req.xid packet)) := by
  have hwaiting : s.io.waiting = req :: reqs := by rw [hio]; rfl
  have hnames := hI.names
  rw [hwaiting, List.map_cons, List.nodup_cons] at hnames
  have hlt : ∀ r ∈ req :: reqs, r.m < s.requests := fun r hr => hI.names_lt r (hwaiting ▸ hr)
  have hview : reqs.map (view sender'.world) = reqs.map (view s.world) := by
    refine view_untouched fun r hr => hs.untouched _ (by simp) fun heq => hnames.1 ?_
    rw [← ConnName.slice.inj heq]
    exact List.mem_map_of_mem hr
  refine ⟨hs.inv, hs.writers_eq ▸ hI.in_mem, hs.writers_eq ▸ hI.owned, hs.holder_eq ▸ hI.not_io,
    fun j hj => ?_, hnames.2, fun r hr => hlt r (List.mem_cons_of_mem _ hr), ?_, hI.wellFormed, ?_, ?_⟩
  · -- unused Marshals stay unused
    have := hlt req (by simp)
    change s.requests ≤ j at hj
    exact (hI.fresh j hj).untouched (hs.untouched _ (by simp) (by simp; omega))
  · -- the second loop does not read from `in_`
    change s.received = _ ++ sender'.world.content .in_
    rw [(hs.untouched .in_ (by simp) (by simp)).content_eq]
    exact hI.stream
  · -- this packet now counts among those with an outcome
    exact ⟨old ++ [(req.xid, packet)], new, by simp [ServerTcpConnection.served, hpackets],
      by simp [ServerTcpConnection.served, hout], hview.trans hnew⟩
  · -- its error reply, if it has one, is the only message that ended
    change (sender'.done.filter _).map Prod.snd = (s.outcomes ++ [_]).filterMap Outcome.errorReply
    rw [hs.done_eq, List.filter_append, List.map_append, hI.replies, List.filterMap_append]
    cases hreply : (outcomeOf handlers req.xid packet).errorReply <;> simp [ownReplies, hreply]

/-- What a round of the second loop does with the first request. -/
structure Dispatched (handlers : Int32 → Option η) (s s' : ServerTcpConnection κ η) (req : Request)
    (reqs : List Request) (packet : List UInt8) : Prop where
  inv : s'.Inv handlers
  packet_eq : s.packets[s.outcomes.length]? = some (req.xid, packet)
  io_eq : s'.io = .dispatching reqs
  outcomes_eq : s'.outcomes = s.outcomes ++ [outcomeOf handlers req.xid packet]
  requests_eq : s'.requests = s.requests
  received_eq : s'.received = s.received
  packets_eq : s'.packets = s.packets
  holder_eq : s'.sender.holder = s.sender.holder
  current_eq : ∀ t, s.sender.holder = some t → s'.sender.current = s.sender.current
  done_eq : s'.sender.done = s.sender.done ++ ownReplies (outcomeOf handlers req.xid packet)
  in_eq : s'.world.content .in_ = s.world.content .in_

theorem Inv.dispatch_first {req : Request} {reqs : List Request}
    (hio : s.io = .dispatching (req :: reqs))
    (hlock : s.Unserved handlers req → s.sender.holder = none) (buf buf' : List UInt8) :
    ∃ s' packet, s.dispatch handlers buf buf' = .ok s' ∧ Dispatched handlers s s' req reqs packet := by
  obtain ⟨old, packet, new, hpackets, hout, hargs, hnew⟩ := hI.first_packet hio
  obtain ⟨sender', heq, hs⟩ := dispatch_serves hI.sender hio hlock hargs buf buf'
  refine ⟨_, packet, heq, hI.served hio hpackets hout hnew hs, ?_, rfl, rfl, rfl, rfl, rfl,
    hs.holder_eq, hs.current_eq, hs.done_eq, (hs.untouched .in_ (by simp) (by simp)).content_eq⟩
  rw [hpackets, hout, List.length_map, List.getElem?_append_right (Nat.le_refl _), Nat.sub_self]
  rfl

/-- The second loop ends. -/
theorem Inv.idle (hio : s.io = .dispatching []) : Inv handlers { s with io := .idle } := by
  have hprogress := hI.progress
  rw [hio] at hprogress
  exact ⟨hI.sender, hI.in_mem, hI.owned, hI.not_io, hI.fresh, List.nodup_nil, by simp [Io.waiting],
    hI.stream, hI.wellFormed, hprogress, hI.replies⟩

/-- The steps of handlers and of `handle_write` do not disturb `handle_read`. -/
theorem Inv.send {op : SendOp ConnName (Option κ)} (hop : s.Allowed handlers (.send op)) :
    ∃ sender', s.sender.step .out_ op = .ok sender' ∧ Inv handlers { s with sender := sender' } ∧
      Sender.Effect .out_ s.sender op sender' ∧
      sender'.world.content .in_ = s.world.content .in_ := by
  obtain ⟨hsend, hforeign, hthread⟩ := hop
  obtain ⟨sender', heq, heff⟩ := hI.sender.step hsend
  have hin : ConnName.in_ ∉ op.names := fun hmem => hforeign _ hmem
  have hcontent := (heff.untouched .in_ (by simp) hin).content_eq
  refine ⟨sender', heq, ⟨heff.inv, heff.writers _ hin hI.in_mem, heff.writers_sub.trans hI.owned, ?_,
    fun k hk => ?_, hI.names, hI.names_lt, ?_, hI.wellFormed, ?_, ?_⟩, heff, hcontent⟩
  · -- the thread of `handle_read` does not send here
    change sender'.holder ≠ some none
    rw [heff.holder]
    cases op with
    | begin t header => exact hthread
    | endMessage t => simp [SendOp.holder]
    | put _ _ | writeMarshal _ _ | handleWrite _ | own _ => exact hI.not_io
  · -- unused Marshals stay unused
    refine (hI.fresh k hk).untouched (heff.untouched _ (by simp) fun hmem => ?_)
    have := (hforeign _ hmem).1
    change s.requests ≤ k at hk
    omega
  · -- nobody but `handle_read` touches `in_`
    change s.received = _ ++ sender'.world.content .in_
    rw [hcontent]
    exact hI.stream
  · -- nor the Requests that wait
    obtain ⟨old, new, hpackets, hout, hnew⟩ := hI.progress
    refine ⟨old, new, hpackets, hout, Eq.trans (view_untouched fun req hreq => ?_) hnew⟩
    exact heff.untouched _ (by simp) fun hmem => (hforeign _ hmem).2 req hreq rfl
  · change (sender'.done.filter _).map Prod.snd = _
    rw [heff.done, List.filter_append, List.map_append, hI.replies]
    -- what a handler finishes is not a reply of `handle_read` itself
    suffices (op.finished s.sender.current).filter (fun msg => msg.1.isNone) = [] by simp [this]
    cases op with
    | endMessage t =>
      have hheld : s.sender.holder = some t := hsend
      cases t with
      | none => exact absurd hheld hI.not_io
      | some t => rfl
    | begin _ _ | put _ _ | writeMarshal _ _ | handleWrite _ | own _ => rfl

/-- Whoever was given a Request may read its Marshal. -/
theorem Inv.foreign {k : Nat} (hk : s.Foreign (.slice k)) {W' : World ConnName}
    {bytes : List UInt8} {cnt : Int32}
    (hu : World.Updates s.world W' s.sender.writers (.slice k) bytes cnt) :
    Inv handlers (s.withWorld W') := by
  refine ⟨hI.sender.untouched hu.inv hI.sender.out_mem (hu.untouched (by simp)), hI.in_mem, hI.owned,
    hI.not_io, fun j hj => ?_, hI.names, hI.names_lt, ?_, hI.wellFormed, ?_, hI.replies⟩
  · refine hu.fresh_of_ne ?_ (hI.fresh j hj)
    have := hk.1
    change s.requests ≤ j at hj
    simp
    omega
  · change s.received = _ ++ W'.content .in_
    rw [hu.content_of_ne (by simp)]
    exact hI.stream
  · obtain ⟨old, new, hpackets, hout, hnew⟩ := hI.progress
    refine ⟨old, new, hpackets, hout, Eq.trans (view_untouched fun req hreq => ?_) hnew⟩
    exact hu.untouched (by simpa using hk.2 req hreq)

end Dispatch

/-! ## Whole runs -/

/-- How many rounds `handle_read` may still take. -/
def remaining (s : ServerTcpConnection κ η) : Nat :=
  match s.io with
  | .idle => 0
  | .dispatching reqs => reqs.length + 1
  | .parsing reqs => (s.world.content .in_).length + reqs.length + 2

/-- The rounds of `handle_read` after its `read_from_fd`. -/
def Op.isRound : Op κ → Bool
  | .parse _ | .dispatch _ _ => true
  | _ => false

/-- Outside of the frame loop, `P` does not hold of what is in `in_`. -/
def Rests (P : List UInt8 → Prop) (s : ServerTcpConnection κ η) : Prop :=
  (∀ reqs, s.io ≠ .parsing reqs) → ¬ P (s.world.content .in_)

/-- Outside of the frame loop `in_` holds no packet that passes its test. -/
def Scanned (s : ServerTcpConnection κ η) : Prop := s.Rests FrameReady

/-- `handle_read` notices the batch: `bytes_read` is an `int`, and 0 for a positive multiple of 2^32
    bytes. -/
def Notices (s : ServerTcpConnection κ η) (avail : List UInt8) (resps : List Nat) : Prop :=
  ∀ W rest got, s.world.readFromFd .in_ avail resps = .ok (W, rest, got) →
    got.length % 2 ^ 32 = 0 → got = []

/-- The steps that meet no defect: no batch of a positive multiple of 2^32 bytes, and no complete
    packet whose size is negative or too small for its `xid`. -/
def Fit (s : ServerTcpConnection κ η) : Op κ → Prop
  | .readFd avail resps => s.Notices avail resps
  | .parse _ => ¬ TooShort (s.world.content .in_)
  | _ => True

/-- What a step does to the bytes received, to the packets cut off them and to the lock. -/
inductive Progress (s s' : ServerTcpConnection κ η) : Op κ → Prop
  | read {avail rest got : List UInt8} {resps : List Nat} {W : World ConnName}
      (hread : s.world.readFromFd .in_ avail resps = .ok (W, rest, got)) (heq : s' = s.fill W got)
      (hin : s'.world.content .in_ = s.world.content .in_ ++ got) :
      Progress s s' (.readFd avail resps)
  | cut {buf packet rest : List UInt8} {reqs : List Request} {W : World ConnName}
      (hio : s.io = .parsing reqs) (hcontent : s.world.content .in_ = frame packet ++ rest)
      (hwf : WellFormed packet) (heq : s' = s.cutOff reqs W (xidOf buf packet) packet)
      (hin : s'.world.content .in_ = rest) : Progress s s' (.parse buf)
  | scanned {buf : List UInt8} {reqs : List Request} (hio : s.io = .parsing reqs)
      (hr : ¬ FrameReady (s.world.content .in_)) (heq : s' = { s with io := .dispatching reqs }) :
      Progress s s' (.parse buf)
  | dispatched {buf buf' : List UInt8} (hio : ∀ reqs, s.io ≠ .parsing reqs)
      (hio' : ∀ reqs, s'.io ≠ .parsing reqs) (hreceived : s'.received = s.received)
      (hpackets : s'.packets = s.packets) (hin : s'.world.content .in_ = s.world.content .in_)
      (hholder : s'.sender.holder = s.sender.holder) : Progress s s' (.dispatch buf buf')
  | sent {op : SendOp ConnName (Option κ)} (hio : s'.io = s.io)
      (hreceived : s'.received = s.received) (hpackets : s'.packets = s.packets)
      (hin : s'.world.content .in_ = s.world.content .in_) : Progress s s' (.send op)

/-- **One step** returns, unless it meets a malformed packet; a round of `handle_read` brings its
    end closer. -/
theorem Inv.progress_step {handlers : Int32 → Option η} {s : ServerTcpConnection κ η}
    (hI : s.Inv handlers) {op : Op κ} (hop : s.Allowed handlers op)
    (hfit : ∀ buf, op = .parse buf → ¬ Malformed (s.world.content .in_)) :
    ∃ s', s.step handlers op = .ok s' ∧ s'.Inv handlers ∧ Progress s s' op ∧
      (op.isRound = true → s'.remaining < s.remaining) := by
  cases op with
  | readFd avail resps =>
    obtain ⟨W', k, heq, hread, hinv, hcontent⟩ := hI.readFd hop avail resps
    exact ⟨_, by simp only [ServerTcpConnection.step, heq, ok_bind, pure_eq_ok], hinv,
      .read hread rfl hcontent, by simp [Op.isRound]⟩
  | parse buf =>
    obtain ⟨reqs, hio⟩ := hop
    by_cases hr : FrameReady (s.world.content .in_)
    · obtain ⟨packet, rest, hcontent, hwf, -⟩ := ready_wellFormed hr (hfit buf rfl)
      obtain ⟨W', heq, hcut⟩ := hI.parse_ready hio hcontent hwf hr buf
      refine ⟨_, heq, hI.cutOff hio hcontent hwf hcut _, .cut hio hcontent hwf rfl hcut.in_eq,
        fun _ => ?_⟩
      -- the Request that is added counts less than its frame
      have hlen := congrArg List.length hcontent
      have hrest := congrArg List.length hcut.in_eq
      simp only [List.length_append, frame_length] at hlen
      simp only [remaining, hio]
      change (W'.content .in_).length + (reqs ++ [_]).length + 2 < _
      simp only [List.length_append, List.length_singleton]
      omega
    · -- no whole frame: on to the second loop
      obtain ⟨heq, hinv⟩ := hI.parse_not_ready hio hr buf
      refine ⟨_, heq, hinv, .scanned hio hr rfl, fun _ => ?_⟩
      simp only [remaining, hio]
      omega
  | dispatch buf buf' =>
    obtain ⟨reqs, hio, hlock⟩ := hop
    have hnot : ∀ reqs, s.io ≠ .parsing reqs := by simp [hio]
    cases reqs with
    | nil =>
      -- the second loop ends
      exact ⟨{ s with io := .idle }, by simp only [ServerTcpConnection.step, dispatch, hio, pure_eq_ok],
        hI.idle hio, .dispatched hnot (by simp) rfl rfl rfl rfl, fun _ => by simp [remaining, hio]⟩
    | cons req reqs =>
      -- the first of the Requests is served
      obtain ⟨s', packet, heq, hd⟩ := hI.dispatch_first hio (hlock req rfl) buf buf'
      refine ⟨s', heq, hd.inv, ?_, fun _ => ?_⟩
      · exact .dispatched hnot (by simp [hd.io_eq]) hd.received_eq hd.packets_eq hd.in_eq hd.holder_eq
      · simp [remaining, hio, hd.io_eq]
  | send op =>
    obtain ⟨sender', heq, hinv, -, hcontent⟩ := hI.send hop
    exact ⟨_, by simp only [ServerTcpConnection.step, heq, ok_bind, pure_eq_ok], hinv,
      .sent rfl rfl rfl hcontent, by simp [Op.isRound]⟩

/-- A step leaves nothing behind in `in_` that `P` holds of, if the frame loop does not when it ends. -/
theorem Rests.step {P : List UInt8 → Prop} {handlers : Int32 → Option η}
    {s s' : ServerTcpConnection κ η} {op : Op κ} (hrests : s.Rests P) (hop : s.Allowed handlers op)
    (hread : ∀ avail resps, op = .readFd avail resps → s.Notices avail resps)
    (hparse : ∀ buf, op = .parse buf → ¬ FrameReady (s.world.content .in_) →
      ¬ P (s.world.content .in_)) (hp : Progress s s' op) : s'.Rests P := by
  intro hnot
  cases hp with
  | @read avail _ got resps _ hgot heq hin =>
    by_cases hzero : got.length % 2 ^ 32 = 0
    · -- nothing was read
      rw [hin, hread avail resps rfl _ _ _ hgot hzero, List.append_nil]
      exact hrests (by rw [show s.io = .idle from hop]; simp)
    · subst heq
      exact absurd (if_neg hzero) (hnot [])
  | cut hio hcontent hwf heq hin =>
    subst heq
    exact absurd rfl (hnot _)
  | @scanned buf reqs hio hr heq =>
    subst heq
    exact hparse buf rfl hr
  | dispatched hio hio' hreceived hpackets hin hholder =>
    rw [hin]
    exact hrests hio
  | sent hio hreceived hpackets hin =>
    rw [hin]
    rw [hio] at hnot
    exact hrests hnot

/-- **One step** that meets no defect returns; a round of `handle_read` brings its end closer. -/
theorem Inv.step {handlers : Int32 → Option η} {s : ServerTcpConnection κ η} (hI : s.Inv handlers)
    (hrests : s.Rests Complete) {op : Op κ} (hop : s.Allowed handlers op) (hfit : s.Fit op) :
    ∃ s', s.step handlers op = .ok s' ∧ s'.Inv handlers ∧ s'.Rests Complete ∧
      (op.isRound = true → s'.remaining < s.remaining) := by
  have hshort : ∀ buf, op = .parse buf → ¬ TooShort (s.world.content .in_) := by
    intro buf hparse
    subst hparse
    exact hfit
  obtain ⟨s', heq, hinv, hp, hlt⟩ :=
    hI.progress_step hop (fun buf hparse => mt Malformed.tooShort (hshort buf hparse))
  refine ⟨s', heq, hinv, hrests.step hop ?_ ?_ hp, hlt⟩
  · intro avail resps hread
    subst hread
    exact hfit
  · -- the test does not fail for a complete packet
    exact fun buf hparse hr hc => hr (hc.frameReady (hshort buf hparse))

/-- What is asked of `handle_read` in a state. -/
structure Sound (handlers : Int32 → Option η) (fit : ServerTcpConnection κ η → Op κ → Prop)
    (s : ServerTcpConnection κ η) : Prop where
  /-- no `verify` fails and `in_` is never asked for more than it holds -/
  returns : ∀ op, s.Allowed handlers op → fit s op → ∃ s', s.step handlers op = .ok s'
  /-- no loop goes on forever -/
  ends : ∀ op s', s.Allowed handlers op → fit s op → op.isRound = true →
    s.step handlers op = .ok s' → s'.remaining < s.remaining
  /-- the packets, in order, are what was received, and what is left of it stays in `in_` -/
  stream : s.received = (s.packets.map Prod.snd).flatMap frame ++ s.world.content .in_
  /-- what is left is an incomplete packet -/
  incomplete : s.io = .idle → ¬ Complete (s.world.content .in_)
  /-- every packet is handed to its handler or answered with an error -/
  served : s.io = .idle → s.outcomes = s.packets.map fun pk => outcomeOf handlers pk.1 pk.2
  /-- the errors are replied -/
  answered : (s.sender.done.filter fun msg => msg.1.isNone).map Prod.snd =
    s.outcomes.filterMap Outcome.errorReply

theorem Inv.sound {handlers : Int32 → Option η} {s : ServerTcpConnection κ η} (hI : s.Inv handlers)
    (hrests : s.Rests Complete) : s.Sound handlers Fit where
  returns op hop hfit := by
    obtain ⟨s', heq, -⟩ := hI.step hrests hop hfit
    exact ⟨s', heq⟩
  ends op s' hop hfit hround hstep := by
    obtain ⟨s'', heq, -, -, hlt⟩ := hI.step hrests hop hfit
    obtain rfl : s'' = s' := by simpa using heq.symm.trans hstep
    exact hlt hround
  stream := hI.stream
  incomplete hidle := hrests (by simp [hidle])
  served hidle := by
    obtain ⟨old, new, hpackets, hout, hnew⟩ := hI.progress
    rw [hidle] at hnew
    have hnil : new = [] := by simpa [Io.waiting] using hnew.symm
    rw [hpackets, hout, hnil, List.append_nil]
  answered := hI.replies

/-- **`handle_read`** of a server: in every run that meets no packet whose size is negative or too
    small for its `xid`, and no batch of a positive multiple of 2^32 bytes, nothing aborts, every loop
    ends, and every complete packet is handed to its handler or answered with `EINVAL` or `ENOENT`. -/
theorem handle_read_sound (handlers : Int32 → Option η) (h : Heap) (ops : List (Op κ))
    (s : ServerTcpConnection κ η) (hrun : Steps (Next handlers Fit) (init h) ops s) :
    s.Sound handlers Fit := by
  have hI : s.Inv handlers ∧ s.Rests Complete := by
    refine Steps.invariant (P := fun s => s.Inv handlers ∧ s.Rests Complete) ?_ hrun
      ⟨inv_init handlers h, fun _ => not_complete_nil⟩
    rintro s op s' ⟨hI, hrests⟩ ⟨hop, hfit, hstep⟩
    obtain ⟨s'', heq, hinv, hrests', -⟩ := hI.step hrests hop hfit
    obtain rfl : s'' = s' := by simpa using heq.symm.trans hstep
    exact ⟨hinv, hrests'⟩
  exact hI.1.sound hI.2

/-- A size below -4 in front of `in_` stays there, as long as `in_` does not hold 2^63 bytes. -/
theorem Inv.negative_step {handlers : Int32 → Option η} {s s' : ServerTcpConnection κ η}
    (hI : s.Inv handlers) {op : Op κ} (hop : s.Allowed handlers op)
    (hstep : s.step handlers op = .ok s') (hneg : (packetSize (s.world.content .in_)).toInt < -4)
    (hlen : (s.world.content .in_).length < 2 ^ 63) :
    s'.Inv handlers ∧ s'.packets = s.packets ∧
      s.world.content .in_ <+: s'.world.content .in_ := by
  have hr := not_frameReady_of_negative hneg hlen
  obtain ⟨s'', heq, hinv, hp, -⟩ := hI.progress_step hop (fun _ _ hm => hr hm.1)
  obtain rfl : s'' = s' := by simpa using heq.symm.trans hstep
  refine ⟨hinv, ?_⟩
  cases hp with
  | read hread hfill hin =>
    rw [hin]
    exact ⟨by rw [hfill]; rfl, List.prefix_append ..⟩
  | cut hio hcontent hwf _ _ =>
    -- the size of a packet that is cut off is not negative
    rw [hcontent, packetSize_frame hwf.lt] at hneg
    omega
  | scanned hio _ hscanned =>
    subst hscanned
    exact ⟨rfl, List.prefix_rfl⟩
  | dispatched _ _ _ hpackets hin _ | sent _ _ hpackets hin => exact ⟨hpackets, by rw [hin]⟩

/-- **Behind a size below -4** nothing is ever handed over or answered: the packet is complete, and
    every byte that arrives stays in `in_`. -/
theorem stuck_behind_negative {handlers : Int32 → Option η} {s s' : ServerTcpConnection κ η}
    (hI : s.Inv handlers) (hlong : 4 ≤ (s.world.content .in_).length)
    (hneg : (packetSize (s.world.content .in_)).toInt < -4) {ops : List (Op κ)}
    (hrun : Steps (Next handlers fun s _ => (s.world.content .in_).length < 2 ^ 63) s ops s') :
    s'.packets = s.packets ∧ Complete (s'.world.content .in_) := by
  have hstuck : s'.Inv handlers ∧ s'.packets = s.packets ∧
      s.world.content .in_ <+: s'.world.content .in_ := by
    refine Steps.invariant (P := fun t => t.Inv handlers ∧ t.packets = s.packets ∧
      s.world.content .in_ <+: t.world.content .in_) ?_ hrun ⟨hI, rfl, List.prefix_rfl⟩
    rintro t op t' ⟨hinv, hpackets, hprefix⟩ ⟨hop, hlen, hstep⟩
    have hsize := packetSize_of_prefix hprefix hlong
    obtain ⟨hinv', hpackets', hprefix'⟩ := hinv.negative_step hop hstep (hsize ▸ hneg) hlen
    exact ⟨hinv', hpackets'.trans hpackets, hprefix.trans hprefix'⟩
  obtain ⟨-, hpackets, hprefix⟩ := hstuck
  have hsize := packetSize_of_prefix hprefix hlong
  refine ⟨hpackets, hlong.trans hprefix.length_le, ?_⟩
  rw [hsize]
  omega

/-! ## Runs of the poll thread -/

/-- Checks that the poll thread can take a step. -/
def ready (s : ServerTcpConnection κ η) : Op κ → Bool
  | .readFd _ _ => (s.io matches .idle)
  | .parse _ => (s.io matches .parsing _)
  | .dispatch _ _ => (s.io matches .dispatching _) && s.sender.holder.isNone
  | .send (.handleWrite _) => s.sender.holder.isNone
  | .send _ => false

theorem allowed_of_ready (handlers : Int32 → Option η) {s : ServerTcpConnection κ η} {op : Op κ}
    (hop : s.ready op = true) : s.Allowed handlers op := by
  cases op with
  | send op => cases op <;> simp_all [ready, Allowed, Sender.Allowed, SendOp.names, SendOp.holder]
  | readFd _ _ | parse _ | dispatch _ _ => cases hio : s.io <;> simp_all [ready, Allowed]

/-- Checks that a step meets no defect. -/
def fits (s : ServerTcpConnection κ η) : Op κ → Bool
  | .readFd avail resps =>
    match s.world.readFromFd .in_ avail resps with
    | .ok (_, _, got) => got.length % 2 ^ 32 = 0 → got = []
    | .error _ => true
  | .parse _ => ¬ TooShort (s.world.content .in_)
  | _ => true

theorem fit_of_fits {s : ServerTcpConnection κ η} {op : Op κ} (hop : s.fits op = true) :
    s.Fit op := by
  cases op with
  | readFd avail resps =>
    intro W rest got hread
    simp only [fits, hread] at hop
    exact of_decide_eq_true hop
  | parse buf =>
    have hshort : ¬ TooShort (s.world.content .in_) := of_decide_eq_true hop
    exact hshort
  | dispatch _ _ | send _ => trivial

/-- A server with one handler. -/
def handleSeven (rpcId : Int32) : Option Unit := if rpcId = 7 then some () else none

/-- A request for that handler, one for a handler that is missing, one without an `rpc_id`, and the
    first bytes of another one, all in one batch. -/
def oneBatch : List UInt8 :=
  frame [1, 7, 0, 0, 0, 9] ++ frame [2, 8, 0, 0, 0] ++ frame [3] ++ [5, 0]

/-- `handle_read` from its beginning to its end. -/
def oneRead : List (Op Unit) :=
  [.readFd oneBatch [30], .parse [], .parse [], .parse [], .parse [], .dispatch [] [], .dispatch [] [],
    .dispatch [] [], .dispatch [] []]

/-- Each request of the batch gets what it deserves, and the bytes of the last one stay in `in_`. -/
theorem handle_read_sound_request :
    ∃ s : ServerTcpConnection Unit Unit, Steps (Next handleSeven Fit) (init .empty) oneRead s ∧
      (s.io = .idle ∧ s.outcomes = [.handed () 1 7 [9], .enoent 2, .einval 3] ∧
        s.world.content .in_ = [5, 0]) ∧ s.Sound handleSeven Fit := by
  obtain ⟨s, hrun, hs⟩ : ∃ s : ServerTcpConnection Unit Unit,
      Steps (Next handleSeven Fit) (init .empty) oneRead s ∧
      (s.io = .idle ∧ s.outcomes = [.handed () 1 7 [9], .enoent 2, .einval 3] ∧
        s.world.content .in_ = [5, 0]) := by
    apply Steps.reach_of_checked (fun s op => s.ready op && s.fits op)
      (ServerTcpConnection.step handleSeven)
    · intro s op s' hcheck hstep
      obtain ⟨hready, hfits⟩ := (Bool.and_eq_true _ _).mp hcheck
      exact ⟨allowed_of_ready _ hready, fit_of_fits hfits, hstep⟩
    · decide +kernel
  exact ⟨s, hrun, hs, handle_read_sound _ _ _ _ hrun⟩

/-- A peer that sends four zero bytes aborts the server: the packet has no `xid`. -/
theorem zero_size_not_sound :
    ¬ ∀ (ops : List (Op Unit)) (s : ServerTcpConnection Unit Unit),
      Steps (Next (fun _ => none) fun _ _ => True) (init .empty) ops s →
        s.Sound (fun _ => none) fun _ _ => True := by
  intro hsound
  -- the frame loop is in front of the four bytes
  obtain ⟨s, hrun, hready, hfault⟩ : ∃ s : ServerTcpConnection Unit Unit,
      Steps (Next (fun _ => none) fun _ _ => True) (init .empty) [.readFd [0, 0, 0, 0] [4]] s ∧
      s.ready (.parse []) = true ∧
      (s.step (fun _ => none) (.parse [])).toOption.isSome = false := by
    apply Steps.reach_of_checked ready (ServerTcpConnection.step fun _ => none)
    · exact fun s op s' hcheck hstep => ⟨allowed_of_ready _ hcheck, trivial, hstep⟩
    · decide +kernel
  obtain ⟨s', hparse⟩ := (hsound _ s hrun).returns (.parse []) (allowed_of_ready _ hready) trivial
  rw [hparse] at hfault
  cases hfault

end ServerTcpConnection

end SimpleRpc.Rpc
