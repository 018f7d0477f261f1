import SimpleRpc.Rpc.UdpRequests
import SimpleRpc.Rpc.Wrappers

/-!
# Datagrams from Anybody

`ServerUdpConnection::handle_read` receives one datagram, cuts it into the frames
`<size> <rpc_id> <arg1> ... <argN>` and hands each to the handler of its `rpc_id`. It has the table
of handlers in common with the TCP connections, but no replies: `begin_reply` and `end_reply` abort.

## Layers

- **Code**: `receive`, up to the frames; `Datagrams.dispatch`, the loop over them; `emitHandler`, the
  statements of a wrapper and of a Python handler, and `execStmt`, what they do on this connection
- **System**: `Datagrams.Guard`, any interleaving of the loop, of the jobs of the thread pool and of
  the callers of `DeferredReply::reply`
- **Invariant**: `Datagrams.Inv`, what the Requests hold and how far their handlers are

## Main results

- `receive_eq`, `receive_fails`: what becomes of a datagram, by its size fields
- `neverAborts_iff`: a datagram does not abort the server if and only if it was received, no size
  field from -4 to -1 is reached, and no frame names a function that replies

## Model

`raw` functions are written by users. Arguments that a `udp` function cannot decode are excluded. The
functions that wrappers call return. The Requests of the datagram are named 0, 1, ...; other Marshals
of the process have other names.
-/

namespace SimpleRpc.Rpc

open SimpleRpc.Lib SimpleRpc.Base

/-! ## The code -/

/-- What `recvfrom(sock_, udp_buffer_, UdpBuffer::max_udp_packet_size_s, ..)` returns and leaves in
    the buffer. -/
structure RecvFrom where
  cnt : Int
  buffer : List UInt8
  buffer_length : buffer.length = maxUdpPacketSize
  ge_neg_one : -1 ≤ cnt
  le_max : cnt ≤ maxUdpPacketSize

/-- What was received. -/
def RecvFrom.datagram (r : RecvFrom) : List UInt8 := r.buffer.take r.cnt.toNat

/-- `m_in.write(udp_buffer_, cnt)`: a chunk of `cnt` bytes is allocated. -/
def writeBuffer (W : World ConnName) (r : RecvFrom) : Except Fault (World ConnName) :=
  if sizeT r.cnt ≤ r.buffer.length then W.write .in_ (r.buffer.take (sizeT r.cnt))
  else .error .lengthError

/-- The loop that cuts off frames; `k` is the number of `complete_requests`. -/
def frameLoop : Nat → World ConnName → Nat → Except Fault (World ConnName × Nat)
  | 0, _, _ => .error .noProgress
  | fuel + 1, W, k => do
    match ← takeSize W with
    | some (W, packetSize) =>
      let n := sizeT packetSize.toInt
      let (W, nFetch) ← W.readFromMarshal (.slice k) .in_ n
      verify (nFetch = n)
      frameLoop fuel W (k + 1)
    | none => pure (W, k)

/-- `handle_read()`, up to the end of the first loop. -/
def receive (W : World ConnName) (r : RecvFrom) : Except Fault (World ConnName × Nat) := do
  let W ← writeBuffer W r
  frameLoop (r.cnt.toNat + 1) W 0

/-- A function of a service that `check_rpc_func` accepts and that is not `raw`. -/
structure CppFunc where
  attrs : List Gen.Attr
  input : Fields
  not_raw : .raw ∉ attrs
  not_defer_udp : ¬ (.defer ∈ attrs ∧ .udp ∈ attrs)

/-- What is in `handlers_`. -/
inductive AnyHandler where
  /-- the wrapper of a function -/
  | cpp (func : CppFunc)
  /-- what `_pyrpc_server_reg` registers -/
  | python

/-- The statements of a handler. -/
def emitHandler : AnyHandler → List Stmt
  | .cpp func => emitWrapper func.attrs
  | .python => [.call, .beginReply, .writeRets, .endReply, .deleteReq, .release]

/-- A handler that was called. -/
structure HandlerTask where
  handler : AnyHandler
  /-- the statements that were not executed yet -/
  body : List Stmt

/-- The poll thread is inside of the handler. -/
def HandlerTask.Inside (task : HandlerTask) : Prop :=
  match task.handler with
  | .cpp func =>
    if .defer ∈ func.attrs then task.body.head? = some .readArgs ∨ task.body.head? = some .call
    else .fast ∈ func.attrs ∧ task.body ≠ []
  | .python => task.body ≠ []

/-- What a statement does on a UDP connection. -/
def execStmt (W : World ConnName) (k : Nat) (handler : AnyHandler) (bufs : Nat → List UInt8) :
    Stmt → Except Fault (World ConnName)
  | .readArgs =>
    match handler with
    | .cpp func => do
      let (_, W) ← W.run (.slice k) (func.input.get bufs)
      pure W
    | .python => pure W
  | .call | .deleteReq | .release => pure W
  -- `verify(0)` in `begin_reply`, `output_buffer` and `end_reply`
  | .beginReply | .writeRets | .endReply => .error .verifyFailed

/-- `handle_read` in its second loop, and the handlers that it has called. -/
structure Datagrams where
  world : World ConnName
  /-- the `complete_requests` that are left -/
  pending : List Nat
  tasks : Nat → Option HandlerTask

/-- A step of `handle_read`, or of whoever executes a handler. -/
inductive DatagramOp where
  | dispatch
  /-- the next statement of the handler of request `k` -/
  | exec (k : Nat) (bufs : Nat → List UInt8)

namespace Datagrams

/-- The requests that `receive` has cut off. -/
def init (W : World ConnName) (n : Nat) : Datagrams := ⟨W, List.range n, fun _ => none⟩

/-- A round of the loop over `complete_requests` -/
def dispatch (handlers : Int32 → Option AnyHandler) (s : Datagrams) : Except Fault Datagrams :=
  match s.pending with
  | [] => pure s
  | k :: pending =>
    if s.world.contentSize (.slice k) < 4 then
      -- rpc id not provided, discard
      pure { s with pending := pending }
    else do
      let (rpcId, W) ← s.world.run (.slice k) MarshalM.getI32
      match handlers rpcId with
      | some handler =>
        pure ⟨W, pending, Function.update s.tasks k (some ⟨handler, emitHandler handler⟩)⟩
      | none => pure { s with world := W, pending := pending }

/-- What each step does. -/
def step (handlers : Int32 → Option AnyHandler) (s : Datagrams) :
    DatagramOp → Except Fault Datagrams
  | .dispatch => s.dispatch handlers
  | .exec k bufs => do
    let task ← deref (s.tasks k)
    match task.body with
    | [] => pure s
    | stmt :: body =>
      let W ← execStmt s.world k task.handler bufs stmt
      pure { s with world := W, tasks := Function.update s.tasks k (some ⟨task.handler, body⟩) }

/-- When a step can be taken. -/
def Guard (s : Datagrams) : DatagramOp → Prop
  | .dispatch => s.pending ≠ [] ∧ ∀ k task, s.tasks k = some task → ¬ task.Inside
  | .exec k _ => ∃ task, s.tasks k = some task ∧ task.body ≠ []

/-- A step that can be taken. -/
def Next (handlers : Int32 → Option AnyHandler) (s : Datagrams) (op : DatagramOp)
    (s' : Datagrams) : Prop :=
  s.Guard op ∧ s.step handlers op = .ok s'

end Datagrams

/-! ## The specification -/

/-- `rpc_id`, as it stands in front of the arguments. -/
def rpcIdOf (packet : List UInt8) : Int32 := i32OfBytes (packet.take 4)

/-- The complete frames of a datagram, and no size field that passes for one. -/
def FramesOf (bytes : List UInt8) (packets : List (List UInt8)) : Prop :=
  ∃ rest, bytes = packets.flatMap frame ++ rest ∧ ¬ FrameReady rest

/-- A handler that was started on a request of these. -/
def StartedOn (handlers : Int32 → Option AnyHandler) (packets : List (List UInt8)) (k : Nat)
    (handler : AnyHandler) : Prop :=
  ∃ packet, packets[k]? = some packet ∧ 4 ≤ packet.length ∧
    handlers (rpcIdOf packet) = some handler

/-- No step faults, in any interleaving. -/
def Datagrams.NoFault (handlers : Int32 → Option AnyHandler) (s : Datagrams) : Prop :=
  ∀ ops s', Steps (Next handlers) s ops s' →
    ∀ op, s'.Guard op → ∃ s'', s'.step handlers op = .ok s''

/-- **What is asked for**: nothing that is executed faults, and handlers are started on complete
    frames with an `rpc_id` only. -/
def NeverAborts (handlers : Int32 → Option AnyHandler) (W : World ConnName) (r : RecvFrom) : Prop :=
  ∃ W' n, receive W r = .ok (W', n) ∧ (Datagrams.init W' n).NoFault handlers ∧
    ∀ packets, FramesOf r.datagram packets → n = packets.length ∧
      ∀ ops s, Steps (Datagrams.Next handlers) (.init W' n) ops s →
        ∀ k task, s.tasks k = some task → StartedOn handlers packets k task.handler

/-- A function that is declared `udp`. -/
def AnyHandler.IsUdp : AnyHandler → Prop
  | .cpp func => .udp ∈ func.attrs
  | .python => False

/-- The frames with an `rpc_id` name `udp` functions, or nothing. -/
def AllUdp (handlers : Int32 → Option AnyHandler) (packets : List (List UInt8)) : Prop :=
  ∀ packet ∈ packets, 4 ≤ packet.length →
    ∀ handler, handlers (rpcIdOf packet) = some handler → handler.IsUdp

/-- A datagram that does no harm. -/
def Harmless (handlers : Int32 → Option AnyHandler) (r : RecvFrom) : Prop :=
  0 ≤ r.cnt ∧ ∃ packets, FramesOf r.datagram packets ∧ AllUdp handlers packets

/-- The arguments can be read from `bytes`. -/
def Fields.Decodes (fs : Fields) (bytes : List UInt8) : Prop :=
  ∀ bufs h m, m.Ok h → m.content h = bytes → ∃ x, fs.get bufs (h, m) = .ok x

/-- The arguments of `udp` functions can be decoded. -/
def Decodable (handlers : Int32 → Option AnyHandler) (packets : List (List UInt8)) : Prop :=
  ∀ packet ∈ packets, 4 ≤ packet.length →
    ∀ func, handlers (rpcIdOf packet) = some (.cpp func) → .udp ∈ func.attrs →
      func.input.Decodes (packet.drop 4)

/-! ## Cutting a datagram into frames -/

/-- The bytes of a datagram are frames, followed by what is no frame or has a negative size. -/
theorem framed_or_negative (bytes : List UInt8) :
    (∃ packets, FramesOf bytes packets) ∨ ∃ (packets : List (List UInt8)) (rest : List UInt8),
      bytes = packets.flatMap frame ++ rest ∧ FrameReady rest ∧ (packetSize rest).toInt < 0 := by
  by_cases hr : FrameReady bytes
  case neg => exact .inl ⟨[], bytes, rfl, hr⟩
  by_cases hneg : (packetSize bytes).toInt < 0
  · exact .inr ⟨[], bytes, rfl, hr, hneg⟩
  · obtain ⟨packet, rest, hbytes, -⟩ := ready_frame hr (by omega)
    have hshorter : rest.length < bytes.length := by
      rw [hbytes, List.length_append, frame_length]
      omega
    obtain ⟨packets, rest', hrest, hnot⟩ | ⟨packets, rest', hrest, hready, hlt⟩ :=
      framed_or_negative rest
    · exact .inl ⟨packet :: packets, rest', by simp [hbytes, hrest], hnot⟩
    · exact .inr ⟨packet :: packets, rest', by simp [hbytes, hrest], hready, hlt⟩
termination_by bytes.length

section Loop

variable {W : World ConnName} (hI : W.Inv ∅)

include hI

theorem frameLoop_not_ready (hr : ¬ FrameReady (W.content .in_)) (fuel k : Nat) :
    frameLoop (fuel + 1) W k = .ok (W, k) := by
  simp only [frameLoop, takeSize_not_ready hI hr, ok_bind, pure_eq_ok]

/-- A size field from -4 to -1 passes for the size of a frame that is complete. -/
theorem frameLoop_negative (hr : FrameReady (W.content .in_))
    (hneg : (packetSize (W.content .in_)).toInt < 0)
    (hlen : (W.content .in_).length ≤ maxUdpPacketSize) {k : Nat} (hfresh : W.Fresh (.slice k))
    (fuel : Nat) : ∃ e, frameLoop (fuel + 1) W k = .error e := by
  obtain ⟨W₁, heq₁, hu₁⟩ := takeSize_ready hI hr
  have hfew : (W₁.content .in_).length < sizeT (packetSize (W.content .in_)).toInt := by
    have hge := (packetSize (W.content .in_)).le_toInt
    rw [hu₁.content_same, List.length_drop, sizeT]
    simp only [maxUdpPacketSize] at hlen
    omega
  have hfresh₁ : W₁.Fresh (.slice k) := hu₁.fresh_of_ne (by simp) hfresh
  obtain ⟨e, he⟩ := World.readFromMarshal_fails hu₁.inv.ok.ok (.slice k) .in_ hfresh₁ hfew
  exact ⟨e, by simp only [frameLoop, heq₁, ok_bind, he, error_bind]⟩

/-- One frame is cut off. -/
theorem frameLoop_frame {packet rest : List UInt8} (hlt : packet.length < 2 ^ 31)
    (hcontent : W.content .in_ = frame packet ++ rest) {k : Nat} (hfresh : W.Fresh (.slice k))
    (fuel : Nat) :
    ∃ W', frameLoop (fuel + 1) W k = frameLoop fuel W' (k + 1) ∧ W'.Inv ∅ ∧
      W'.content .in_ = rest ∧ W'.content (.slice k) = packet ∧
      ∀ j, j ≠ .in_ → j ≠ .slice k → World.Untouched W W' j := by
  have hsize : (packetSize (W.content .in_)).toInt = packet.length := by
    rw [hcontent, packetSize_frame hlt]
  have hn : sizeT (packetSize (W.content .in_)).toInt = packet.length := by
    rw [sizeT_nonneg (by omega), hsize, Int.toNat_natCast]
  obtain ⟨W₁, heq₁, hu₁⟩ := takeSize_ready hI (hcontent ▸ frameReady_frame hlt rest)
  have hin₁ : W₁.content .in_ = packet ++ rest := by
    rw [hu₁.content_same, hcontent, frame, List.append_assoc, List.drop_left' (leBytes_length ..)]
  have hfresh₁ : W₁.Fresh (.slice k) := hu₁.fresh_of_ne (by simp) hfresh
  obtain ⟨W₂, heq₂, ht⟩ := hu₁.inv.cut (j := .in_) (n := packet.length) (by simp) hfresh₁
    (by rw [hin₁, List.length_append]; omega)
  refine ⟨W₂, ?_, ht.inv.mono (Set.empty_subset _), ?_, ?_, fun j hj hjk => ?_⟩
  · simp only [frameLoop, heq₁, ok_bind, hn, heq₂, verify_of]
  · rw [ht.content_eq, Function.update_of_ne (by simp), Function.update_self, hin₁, List.drop_left]
  · rw [ht.content_eq, Function.update_self, World.fresh_content hfresh₁, hin₁, List.nil_append,
      List.take_left]
  · exact (hu₁.untouched hj).trans (ht.untouched hjk hj)

end Loop

/-- `W'` holds the frames of a datagram in its Requests, from the `k`-th on. -/
structure Cut (W W' : World ConnName) (k : Nat) (packets : List (List UInt8)) (rest : List UInt8) :
    Prop where
  inv : W'.Inv ∅
  in_eq : W'.content .in_ = rest
  slices : ∀ i packet, packets[i]? = some packet → W'.content (.slice (k + i)) = packet
  fresh : ∀ j, k + packets.length ≤ j → W'.Fresh (.slice j)
  untouched : ∀ j, j < k → World.Untouched W W' (.slice j)

/-- All frames are cut off. -/
theorem frameLoop_frames (packets : List (List UInt8)) {W : World ConnName} (hI : W.Inv ∅)
    {rest : List UInt8} (hcontent : W.content .in_ = packets.flatMap frame ++ rest)
    (hlt : ∀ packet ∈ packets, packet.length < 2 ^ 31) {k : Nat}
    (hfresh : ∀ j, k ≤ j → W.Fresh (.slice j)) (fuel : Nat) :
    ∃ W', frameLoop (fuel + packets.length) W k = frameLoop fuel W' (k + packets.length) ∧
      Cut W W' k packets rest := by
  induction packets generalizing W k with
  | nil =>
    refine ⟨W, rfl, hI, hcontent, ?_, hfresh, fun j _ => ⟨rfl, rfl⟩⟩
    intro i packet hi
    simp at hi
  | cons packet packets ih =>
    rw [List.flatMap_cons, List.append_assoc] at hcontent
    obtain ⟨W₁, heq₁, hI₁, hin₁, hslice₁, hu₁⟩ := frameLoop_frame hI (hlt packet (.head _)) hcontent
      (hfresh k (Nat.le_refl k)) (fuel + packets.length)
    -- the Requests behind this one have not been used
    have hfresh₁ : ∀ j, k + 1 ≤ j → W₁.Fresh (.slice j) := by
      intro j hj
      apply World.Fresh.untouched (hfresh j (by omega))
      exact hu₁ _ (by simp) (by simp; omega)
    obtain ⟨W', heq, hcut⟩ := ih hI₁ hin₁ (fun p hp => hlt p (.tail _ hp)) hfresh₁
    refine ⟨W', ?_, hcut.inv, hcut.in_eq, ?_, ?_, ?_⟩
    · rw [List.length_cons, ← Nat.add_assoc, heq₁, heq]
      congr 1
      omega
    · intro i p hi
      cases i with
      | zero =>
        -- the rounds that follow leave the first Request alone
        obtain rfl : packet = p := by simpa using hi
        rw [Nat.add_zero, (hcut.untouched k (by omega)).content_eq, hslice₁]
      | succ i =>
        have hp := hcut.slices i p (by simpa using hi)
        rwa [Nat.add_assoc, Nat.add_comm 1 i] at hp
    · intro j hj
      exact hcut.fresh j (by rw [List.length_cons] at hj; omega)
    · intro j hj
      exact (hu₁ _ (by simp) (by simp; omega)).trans (hcut.untouched j (by omega))

/-- Each frame has a size field. -/
theorem length_le_flatMap_frame (packets : List (List UInt8)) :
    packets.length ≤ (packets.flatMap frame).length := by
  induction packets with
  | nil => exact Nat.le_refl 0
  | cons packet packets ih =>
    rw [List.flatMap_cons, List.length_append, frame_length, List.length_cons]
    omega

/-- A process that has just constructed `m_in`, and no Request of this datagram. -/
structure Vacant (W : World ConnName) (ws : Set ConnName) : Prop where
  inv : W.Inv ws
  in_mem : ConnName.in_ ∈ ws
  in_fresh : W.Fresh .in_
  fresh : ∀ k, W.Fresh (.slice k)

section Receive

variable {W : World ConnName} {ws : Set ConnName} (hv : Vacant W ws) (r : RecvFrom)

theorem RecvFrom.datagram_length : r.datagram.length = r.cnt.toNat := by
  have hle := r.le_max
  rw [datagram, List.length_take, r.buffer_length]
  omega

theorem RecvFrom.datagram_le : r.datagram.length ≤ maxUdpPacketSize := by
  have hle := r.le_max
  rw [r.datagram_length]
  omega

/-- A frame of a datagram is not longer than the datagram. -/
theorem RecvFrom.packet_lt {packets : List (List UInt8)} {rest : List UInt8}
    (hbytes : r.datagram = packets.flatMap frame ++ rest) :
    ∀ packet ∈ packets, packet.length < 2 ^ 31 := by
  intro packet hmem
  obtain ⟨before, after, rfl⟩ := List.append_of_mem hmem
  have hle := r.datagram_le
  simp only [hbytes, List.flatMap_append, List.flatMap_cons, List.length_append, frame_length,
    maxUdpPacketSize] at hle
  omega

include hv

theorem writeBuffer_eq (hcnt : 0 ≤ r.cnt) :
    ∃ W', writeBuffer W r = .ok W' ∧ W'.Inv ∅ ∧ W'.content .in_ = r.datagram ∧
      ∀ k, W'.Fresh (.slice k) := by
  have hle := r.le_max
  have hn : sizeT r.cnt = r.cnt.toNat := by
    simp only [maxUdpPacketSize] at hle
    unfold sizeT
    omega
  obtain ⟨W', heq, hu⟩ := hv.inv.write hv.in_mem r.datagram
  refine ⟨W', ?_, hu.inv.mono (Set.empty_subset _), ?_, fun k => hu.fresh_of_ne (by simp) (hv.fresh k)⟩
  · rw [writeBuffer, hn, if_pos (by rw [r.buffer_length]; omega)]
    exact heq
  · rw [hu.content_same, World.fresh_content hv.in_fresh, List.nil_append]

/-- The loop cuts off the frames at the front of a datagram, with fuel to spare. -/
theorem receive_frames (hcnt : 0 ≤ r.cnt) {packets : List (List UInt8)} {rest : List UInt8}
    (hbytes : r.datagram = packets.flatMap frame ++ rest) :
    ∃ W₁ W' fuel, receive W r = frameLoop (fuel + 1) W' packets.length ∧
      Cut W₁ W' 0 packets rest := by
  obtain ⟨W₁, heq₁, hI₁, hin₁, hfresh₁⟩ := writeBuffer_eq hv r hcnt
  -- there are more bytes than rounds
  have hfuel : packets.length ≤ r.cnt.toNat := by
    have hlen := length_le_flatMap_frame packets
    rw [← r.datagram_length, hbytes, List.length_append]
    omega
  obtain ⟨W', heq, hcut⟩ := frameLoop_frames packets hI₁ (hin₁.trans hbytes) (r.packet_lt hbytes)
    (fun j _ => hfresh₁ j) (r.cnt.toNat - packets.length + 1)
  refine ⟨W₁, W', r.cnt.toNat - packets.length, ?_, hcut⟩
  have hsum : r.cnt.toNat + 1 = r.cnt.toNat - packets.length + 1 + packets.length := by omega
  rw [receive, heq₁, ok_bind, hsum, heq, Nat.zero_add]

/-- The complete frames become Requests. -/
theorem receive_eq (hcnt : 0 ≤ r.cnt) {packets : List (List UInt8)}
    (hframed : FramesOf r.datagram packets) :
    ∃ W', receive W r = .ok (W', packets.length) ∧ W'.Inv ∅ ∧
      ∀ k packet, packets[k]? = some packet → W'.content (.slice k) = packet := by
  obtain ⟨rest, hbytes, hnot⟩ := hframed
  obtain ⟨W₁, W', fuel, heq, hcut⟩ := receive_frames hv r hcnt hbytes
  refine ⟨W', ?_, hcut.inv, fun k packet hk => ?_⟩
  · rw [heq]
    exact frameLoop_not_ready hcut.inv (hcut.in_eq ▸ hnot) fuel packets.length
  · have hslice := hcut.slices k packet hk
    rwa [Nat.zero_add] at hslice

/-- A failed `recvfrom` and a negative size field are passed on as sizes. -/
theorem receive_fails (hbad : r.cnt < 0 ∨ ∃ (packets : List (List UInt8)) (rest : List UInt8),
      r.datagram = packets.flatMap frame ++ rest ∧ FrameReady rest ∧ (packetSize rest).toInt < 0) :
    ∃ e, receive W r = .error e := by
  by_cases hcnt : r.cnt < 0
  · -- `(size_t) -1`
    have hge := r.ge_neg_one
    have hlarge : ¬ sizeT r.cnt ≤ r.buffer.length := by
      rw [r.buffer_length, maxUdpPacketSize]
      unfold sizeT
      omega
    exact ⟨.lengthError, by rw [receive, writeBuffer, if_neg hlarge, error_bind]⟩
  · -- the frames before the negative size are cut off
    obtain ⟨packets, rest, hbytes, hready, hneg⟩ := hbad.resolve_left hcnt
    obtain ⟨W₁, W', fuel, heq, hcut⟩ := receive_frames hv r (by omega) hbytes
    have hlen : rest.length ≤ maxUdpPacketSize := by
      have hle := r.datagram_le
      rw [hbytes, List.length_append] at hle
      omega
    obtain ⟨e, he⟩ := frameLoop_negative hcut.inv (hcut.in_eq ▸ hready) (hcut.in_eq ▸ hneg)
      (hcut.in_eq ▸ hlen) (hcut.fresh packets.length (by omega)) fuel
    exact ⟨e, heq.trans he⟩

end Receive

/-! ## The handlers -/

/-- How far a handler is. -/
structure HandlerTask.Runs (handlers : Int32 → Option AnyHandler) (packets : List (List UInt8))
    (W : World ConnName) (k : Nat) (task : HandlerTask) : Prop where
  started : StartedOn handlers packets k task.handler
  body : task.body <:+ emitHandler task.handler
  /-- no argument was read yet -/
  args : task.body.head? = some .readArgs → ∀ packet, packets[k]? = some packet →
    W.content (.slice k) = packet.drop 4

/-- Arguments are read once, at the begin. -/
theorem head_ne_readArgs {handler : AnyHandler} {stmt : Stmt} {body : List Stmt}
    (hbody : stmt :: body <:+ emitHandler handler) : body.head? ≠ some .readArgs := by
  have htail : body <:+ (emitHandler handler).tail := by
    obtain ⟨before, heq⟩ := hbody
    rw [← heq]
    cases before with
    | nil => exact List.suffix_rfl
    | cons first before => exact ⟨before ++ [stmt], by simp⟩
  have honce : Stmt.readArgs ∉ (emitHandler handler).tail := by
    cases handler with
    | cpp func =>
      rw [emitHandler, emitWrapper]
      split
      · simp
      · split
        · simp
        · simp
    | python => simp [emitHandler]
  intro hhead
  exact honce (htail.subset (List.mem_of_mem_head? hhead))

/-- A statement is about its own Request. -/
theorem execStmt_frame {W W' : World ConnName} (hW : W.Inv ∅) {k : Nat} {handler : AnyHandler}
    {bufs : Nat → List UInt8} {stmt : Stmt} (hexec : execStmt W k handler bufs stmt = .ok W') :
    W'.Inv ∅ ∧ ∀ j, j ≠ k → W'.content (.slice j) = W.content (.slice j) := by
  have hself : W' = W → W'.Inv ∅ ∧ ∀ j, j ≠ k → W'.content (.slice j) = W.content (.slice j) := by
    intro heq
    rw [heq]
    exact ⟨hW, fun _ _ => rfl⟩
  cases stmt with
  | readArgs =>
    cases handler with
    | cpp func =>
      obtain ⟨⟨x, W₁⟩, hrun, hret⟩ := bind_eq_ok.mp hexec
      obtain rfl : W₁ = W' := Except.ok.inj hret
      obtain ⟨n, hu⟩ := hW.reads (Fields.reads_get bufs func.input) hrun
      exact ⟨hu.inv, fun j hj => hu.content_of_ne (by simpa using hj)⟩
    | python => exact hself (Except.ok.inj hexec).symm
  | call => exact hself (Except.ok.inj hexec).symm
  | deleteReq => exact hself (Except.ok.inj hexec).symm
  | release => exact hself (Except.ok.inj hexec).symm
  | beginReply => cases hexec
  | writeRets => cases hexec
  | endReply => cases hexec

/-- The wrapper of a `udp` function does not reply. -/
theorem emitHandler_udp {handler : AnyHandler} (hudp : handler.IsUdp) :
    emitHandler handler = [.readArgs, .call, .deleteReq, .release] := by
  cases handler with
  | cpp func =>
    have hdefer : .defer ∉ func.attrs := fun h => func.not_defer_udp ⟨h, hudp⟩
    have hflag : .udp ∈ func.attrs := hudp
    simp [emitHandler, emitWrapper, hdefer, hflag]
  | python => exact hudp.elim

/-- Every other handler does, after it was called. -/
theorem emitHandler_not_udp {handler : AnyHandler} (hudp : ¬ handler.IsUdp) :
    ∃ rest, emitHandler handler = .call :: .beginReply :: rest ∨
      emitHandler handler = .readArgs :: .call :: .beginReply :: rest := by
  cases handler with
  | cpp func =>
    have hflag : .udp ∉ func.attrs := hudp
    refine ⟨[.writeRets, .endReply, .deleteReq, .release], .inr ?_⟩
    simp only [emitHandler, emitWrapper, hflag, if_false]
    split
    · rfl
    · rfl
  | python => exact ⟨_, .inl rfl⟩

namespace Datagrams

/-- What the Requests hold. -/
structure Inv (handlers : Int32 → Option AnyHandler) (packets : List (List UInt8))
    (s : Datagrams) : Prop where
  world : s.world.Inv ∅
  nodup : s.pending.Nodup
  pending : ∀ k ∈ s.pending, s.tasks k = none ∧ ∃ packet, packets[k]? = some packet ∧
    s.world.content (.slice k) = packet
  tasks : ∀ k task, s.tasks k = some task → task.Runs handlers packets s.world k

section Invariant

variable {handlers : Int32 → Option AnyHandler} {packets : List (List UInt8)}

theorem inv_init {W : World ConnName} (hW : W.Inv ∅)
    (hslices : ∀ k packet, packets[k]? = some packet → W.content (.slice k) = packet) :
    (init W packets.length).Inv handlers packets := by
  refine ⟨hW, List.nodup_range, ?_, fun k task htask => by simp [init] at htask⟩
  intro k hk
  have hlt : k < packets.length := List.mem_range.mp hk
  exact ⟨rfl, packets.get ⟨k, hlt⟩, by simp, hslices k _ (by simp)⟩

variable {s : Datagrams} (hI : s.Inv handlers packets)

include hI

/-- A step that is about request `k` only. -/
theorem Inv.about {k : Nat} {W' : World ConnName} {pending' : List Nat}
    {tasks' : Nat → Option HandlerTask} (hW : W'.Inv ∅)
    (hsame : ∀ j, j ≠ k → W'.content (.slice j) = s.world.content (.slice j))
    (hsub : pending'.Sublist s.pending) (hk : k ∉ pending')
    (htasks : ∀ j, j ≠ k → tasks' j = s.tasks j)
    (hnew : ∀ task, tasks' k = some task → task.Runs handlers packets W' k) :
    Inv handlers packets ⟨W', pending', tasks'⟩ := by
  refine ⟨hW, hsub.nodup hI.nodup, ?_, ?_⟩
  · intro j hj
    have hjk : j ≠ k := fun heq => hk (heq ▸ hj)
    obtain ⟨hnone, packet, hpacket, hcontent⟩ := hI.pending j (hsub.subset hj)
    exact ⟨(htasks j hjk).trans hnone, packet, hpacket, (hsame j hjk).trans hcontent⟩
  · intro j task htask
    by_cases hjk : j = k
    · subst hjk
      exact hnew task htask
    · obtain ⟨hstarted, hbody, hargs⟩ := hI.tasks j task ((htasks j hjk).symm.trans htask)
      refine ⟨hstarted, hbody, fun hhead packet hpacket => ?_⟩
      exact (hsame j hjk).trans (hargs hhead packet hpacket)

/-- **A round of the loop**: a Request without an `rpc_id` or a handler is dropped. -/
theorem Inv.dispatch {k : Nat} {pending : List Nat} (hpending : s.pending = k :: pending)
    {packet : List UInt8} (hpacket : packets[k]? = some packet) :
    ∃ s', s.dispatch handlers = .ok s' ∧ s'.Inv handlers packets ∧ s'.pending = pending ∧
      (∀ j, j ≠ k → s'.tasks j = s.tasks j) ∧
      s'.tasks k = (if packet.length < 4 then none else
        (handlers (rpcIdOf packet)).map fun handler => ⟨handler, emitHandler handler⟩) := by
  obtain ⟨hnone, packet', hpacket', hcontent⟩ := hI.pending k (by simp [hpending])
  obtain rfl : packet' = packet := Option.some.inj (hpacket'.symm.trans hpacket)
  have hnodup := hI.nodup
  rw [hpending, List.nodup_cons] at hnodup
  have hsub : pending.Sublist s.pending := hpending ▸ List.sublist_cons_self k pending
  have hsize : s.world.contentSize (.slice k) = packet'.length := by
    rw [World.contentSize_eq hI.world.ok.ok, hcontent]
  by_cases hshort : packet'.length < 4
  · -- rpc id not provided, discard
    refine ⟨{ s with pending := pending }, ?_, ?_, rfl, fun _ _ => rfl, ?_⟩
    · simp only [Datagrams.dispatch, hpending, hsize, if_pos hshort, pure_eq_ok]
    · apply hI.about hI.world (fun _ _ => rfl) hsub hnodup.1 (fun _ _ => rfl)
      intro task htask
      simp [hnone] at htask
    · rw [if_pos hshort]
      exact hnone
  · -- `*request->m >> rpc_id` takes four bytes from this Request and none from the others
    have hget := gets_getI32_bytes
      (show (packet'.take 4).length = 4 by rw [List.length_take]; omega)
    obtain ⟨W', heq, hu⟩ := hI.world.gets (i := .slice k) hget
      (by rw [List.take_append_drop]; exact hcontent)
    have hsame : ∀ j, j ≠ k → W'.content (.slice j) = s.world.content (.slice j) :=
      fun j hj => hu.content_of_ne (by simpa using hj)
    rw [if_neg hshort]
    cases hfind : handlers (rpcIdOf packet') with
    | none =>
      -- rpc id not found, discard
      refine ⟨{ s with world := W', pending := pending }, ?_, ?_, rfl, fun _ _ => rfl, hnone⟩
      · rw [rpcIdOf] at hfind
        simp only [Datagrams.dispatch, hpending, hsize, if_neg hshort, heq, ok_bind, hfind,
          pure_eq_ok]
      · apply hI.about hu.inv hsame hsub hnodup.1 (fun _ _ => rfl)
        intro task htask
        simp [hnone] at htask
    | some handler =>
      -- a handler is there and gets the Request
      let tasks' := Function.update s.tasks k (some ⟨handler, emitHandler handler⟩)
      refine ⟨⟨W', pending, tasks'⟩, ?_, ?_, rfl, fun j hj => Function.update_of_ne hj .., ?_⟩
      · rw [rpcIdOf] at hfind
        simp only [Datagrams.dispatch, hpending, hsize, if_neg hshort, heq, ok_bind, hfind,
          pure_eq_ok, tasks']
      · apply hI.about hu.inv hsame hsub hnodup.1 (fun j hj => Function.update_of_ne hj ..)
        intro task htask
        obtain rfl : ⟨handler, emitHandler handler⟩ = task := by simpa [tasks'] using htask
        -- it has all its statements ahead, and its Request holds what came behind the `rpc_id`
        refine ⟨⟨packet', hpacket, by omega, hfind⟩, List.suffix_rfl, fun _ p hp => ?_⟩
        obtain rfl : p = packet' := Option.some.inj (hp.symm.trans hpacket)
        exact hu.content_same
      · simp [tasks']

omit hI in
theorem step_exec {k : Nat} {task : HandlerTask} (htask : s.tasks k = some task) {stmt : Stmt}
    {body : List Stmt} (hbody : task.body = stmt :: body) (bufs : Nat → List UInt8) :
    s.step handlers (.exec k bufs) =
      (execStmt s.world k task.handler bufs stmt >>= fun W' =>
        .ok ⟨W', s.pending, Function.update s.tasks k (some ⟨task.handler, body⟩)⟩) := by
  simp only [Datagrams.step, htask, deref_some, ok_bind, hbody, pure_eq_ok]

/-- **A statement of a handler** -/
theorem Inv.exec {k : Nat} {task : HandlerTask} (htask : s.tasks k = some task) {stmt : Stmt}
    {body : List Stmt} (hbody : task.body = stmt :: body) {bufs : Nat → List UInt8}
    {W' : World ConnName} (hexec : execStmt s.world k task.handler bufs stmt = .ok W') :
    Inv handlers packets
      ⟨W', s.pending, Function.update s.tasks k (some ⟨task.handler, body⟩)⟩ := by
  obtain ⟨hW, hsame⟩ := execStmt_frame hI.world hexec
  obtain ⟨hstarted, hsuffix, -⟩ := hI.tasks k task htask
  rw [hbody] at hsuffix
  -- a Request with a handler is not waiting any more
  have hk : k ∉ s.pending := by
    intro hmem
    simp [(hI.pending k hmem).1] at htask
  apply hI.about hW hsame (List.Sublist.refl _) hk (fun j hj => Function.update_of_ne hj ..)
  intro task' htask'
  obtain rfl : ⟨task.handler, body⟩ = task' := by simpa using htask'
  exact ⟨hstarted, (List.suffix_cons stmt body).trans hsuffix,
    fun hhead => absurd hhead (head_ne_readArgs hsuffix)⟩

/-- **One step** keeps the invariant. -/
theorem Inv.step {op : DatagramOp} {s' : Datagrams} (hnext : Next handlers s op s') :
    s'.Inv handlers packets := by
  obtain ⟨hguard, hstep⟩ := hnext
  cases op with
  | dispatch =>
    obtain ⟨k, pending, hpending⟩ := List.exists_cons_of_ne_nil hguard.1
    obtain ⟨-, packet, hpacket, -⟩ := hI.pending k (by simp [hpending])
    obtain ⟨s'', heq, hI', -⟩ := hI.dispatch hpending hpacket
    obtain rfl : s'' = s' := Except.ok.inj (heq.symm.trans hstep)
    exact hI'
  | exec k bufs =>
    obtain ⟨task, htask, hne⟩ := hguard
    obtain ⟨stmt, body, hbody⟩ := List.exists_cons_of_ne_nil hne
    rw [step_exec htask hbody] at hstep
    obtain ⟨W', hexec, hret⟩ := bind_eq_ok.mp hstep
    obtain rfl := Except.ok.inj hret
    exact hI.exec htask hbody hexec

/-- The arguments of a `udp` function are read. -/
theorem Inv.readArgs (hdec : Decodable handlers packets) {k : Nat} {task : HandlerTask}
    (htask : s.tasks k = some task) (hudp : task.handler.IsUdp)
    (hhead : task.body.head? = some .readArgs) (bufs : Nat → List UInt8) :
    ∃ W', execStmt s.world k task.handler bufs .readArgs = .ok W' := by
  obtain ⟨⟨packet, hpacket, hlen, hfind⟩, -, hargs⟩ := hI.tasks k task htask
  cases hhandler : task.handler with
  | cpp func =>
    rw [hhandler] at hfind hudp
    obtain ⟨⟨x, h', m'⟩, hget⟩ := hdec packet (List.mem_of_getElem? hpacket) hlen func hfind hudp bufs
      s.world.heap (s.world.marshal (.slice k)) (hI.world.ok.ok (.slice k)) (hargs hhead packet hpacket)
    exact ⟨s.world.set (.slice k) h' m', by simp [execStmt, World.run, hget]⟩
  | python => exact ⟨s.world, rfl⟩

/-- No statement of a `udp` function faults. -/
theorem Inv.exec_returns (hdec : Decodable handlers packets) {k : Nat} {task : HandlerTask}
    (htask : s.tasks k = some task) (hudp : task.handler.IsUdp) {stmt : Stmt} {body : List Stmt}
    (hbody : task.body = stmt :: body) (bufs : Nat → List UInt8) :
    ∃ W', execStmt s.world k task.handler bufs stmt = .ok W' := by
  obtain ⟨-, hsuffix, -⟩ := hI.tasks k task htask
  -- there is no reply among the statements
  have hmem : stmt ∈ [Stmt.readArgs, .call, .deleteReq, .release] := by
    rw [← emitHandler_udp hudp]
    exact hsuffix.subset (by simp [hbody])
  cases stmt with
  | readArgs => exact hI.readArgs hdec htask hudp (by simp [hbody]) bufs
  | call => exact ⟨s.world, rfl⟩
  | deleteReq => exact ⟨s.world, rfl⟩
  | release => exact ⟨s.world, rfl⟩
  | beginReply => simp at hmem
  | writeRets => simp at hmem
  | endReply => simp at hmem

/-- **No step faults** while only `udp` functions are named. -/
theorem Inv.returns (hudp : AllUdp handlers packets) (hdec : Decodable handlers packets)
    {op : DatagramOp} (hguard : s.Guard op) : ∃ s', s.step handlers op = .ok s' := by
  cases op with
  | dispatch =>
    obtain ⟨k, pending, hpending⟩ := List.exists_cons_of_ne_nil hguard.1
    obtain ⟨-, packet, hpacket, -⟩ := hI.pending k (by simp [hpending])
    obtain ⟨s', heq, -⟩ := hI.dispatch hpending hpacket
    exact ⟨s', heq⟩
  | exec k bufs =>
    obtain ⟨task, htask, hne⟩ := hguard
    obtain ⟨stmt, body, hbody⟩ := List.exists_cons_of_ne_nil hne
    obtain ⟨⟨packet, hpacket, hlen, hfind⟩, -, -⟩ := hI.tasks k task htask
    have hhandler : task.handler.IsUdp :=
      hudp packet (List.mem_of_getElem? hpacket) hlen task.handler hfind
    obtain ⟨W', hexec⟩ := hI.exec_returns hdec htask hhandler hbody bufs
    exact ⟨_, by rw [step_exec htask hbody, hexec, ok_bind]⟩

theorem Inv.run {ops : List DatagramOp} {s' : Datagrams} (hrun : Steps (Next handlers) s ops s') :
    s'.Inv handlers packets :=
  hrun.invariant (P := fun s => s.Inv handlers packets) (fun _ _ _ hI hnext => hI.step hnext) hI

theorem Inv.noFault (hudp : AllUdp handlers packets) (hdec : Decodable handlers packets) :
    s.NoFault handlers := by
  intro ops s' hrun op hguard
  exact (hI.run hrun).returns hudp hdec hguard

/-! ## Requests one after the other -/

omit hI in
/-- A handler at its end. -/
theorem not_inside_nil (handler : AnyHandler) : ¬ HandlerTask.Inside ⟨handler, []⟩ := by
  cases handler with
  | cpp func =>
    simp only [HandlerTask.Inside]
    split
    · simp
    · simp
  | python => simp [HandlerTask.Inside]

/-- The handler of a `udp` function comes to its end. -/
theorem Inv.finish (hdec : Decodable handlers packets) {k : Nat} {handler : AnyHandler}
    (hudp : handler.IsUdp) {body : List Stmt} (htask : s.tasks k = some ⟨handler, body⟩) :
    ∃ ops s', Steps (Next handlers) s ops s' ∧ s'.Inv handlers packets ∧
      s'.pending = s.pending ∧ s'.tasks = Function.update s.tasks k (some ⟨handler, []⟩) := by
  induction body generalizing s with
  | nil =>
    refine ⟨[], s, .nil s, hI, rfl, ?_⟩
    rw [← htask, Function.update_eq_self]
  | cons stmt body ih =>
    obtain ⟨W', hexec⟩ := hI.exec_returns hdec htask hudp rfl fun _ => []
    have hI' := hI.exec htask rfl hexec
    obtain ⟨ops, s', hrun, hinv, hpending, htasks⟩ := ih hI' (by simp)
    refine ⟨.exec k (fun _ => []) :: ops, s', .cons ⟨⟨_, htask, by simp⟩, ?_⟩ hrun, hinv, hpending, ?_⟩
    · rw [step_exec htask rfl, hexec, ok_bind]
    · rw [htasks, Function.update_idem]

omit hI in
/-- The poll thread is inside of no handler. -/
def Quiet (s : Datagrams) : Prop := ∀ k task, s.tasks k = some task → ¬ task.Inside

/-- A request that is harmless is dealt with. -/
theorem Inv.deal (hdec : Decodable handlers packets) (hquiet : s.Quiet) {k : Nat}
    {pending : List Nat} (hpending : s.pending = k :: pending) {packet : List UInt8}
    (hpacket : packets[k]? = some packet)
    (hudp : 4 ≤ packet.length → ∀ handler, handlers (rpcIdOf packet) = some handler → handler.IsUdp) :
    ∃ ops s', Steps (Next handlers) s ops s' ∧ s'.Inv handlers packets ∧ s'.pending = pending ∧
      s'.Quiet := by
  obtain ⟨s₁, heq₁, hI₁, hpending₁, hothers, hk⟩ := hI.dispatch hpending hpacket
  have hfirst : Next handlers s .dispatch s₁ := ⟨⟨by simp [hpending], hquiet⟩, heq₁⟩
  cases htask : s₁.tasks k with
  | none =>
    -- the Request was dropped, so no handler has begun
    refine ⟨[.dispatch], s₁, .cons hfirst (.nil s₁), hI₁, hpending₁, ?_⟩
    intro j task hj
    by_cases hjk : j = k
    · simp [hjk, htask] at hj
    · exact hquiet j task (hothers j hjk ▸ hj)
  | some task =>
    -- the handler runs to its end before the next round
    obtain ⟨⟨packet', hpacket', hlen, hfind⟩, -, -⟩ := hI₁.tasks k task htask
    obtain rfl : packet' = packet := Option.some.inj (hpacket'.symm.trans hpacket)
    obtain ⟨ops, s', hrun, hinv, hpending', htasks⟩ := hI₁.finish hdec (hudp hlen _ hfind) htask
    refine ⟨.dispatch :: ops, s', .cons hfirst hrun, hinv, hpending'.trans hpending₁, ?_⟩
    intro j task' hj
    rw [htasks] at hj
    by_cases hjk : j = k
    · subst hjk
      obtain rfl : ⟨task.handler, []⟩ = task' := by simpa using hj
      exact not_inside_nil task.handler
    · -- the other handlers are where they were
      rw [Function.update_of_ne hjk, hothers j hjk] at hj
      exact hquiet j task' hj

omit hI in
theorem NoFault.run {s s' : Datagrams} (hno : s.NoFault handlers) {ops : List DatagramOp}
    (hrun : Steps (Next handlers) s ops s') : s'.NoFault handlers :=
  fun _ s'' hrun' => hno _ s'' (hrun.append hrun')

omit hI in
/-- Without faults, a handler gets on. -/
theorem NoFault.exec {s : Datagrams} (hno : s.NoFault handlers) {k : Nat} {handler : AnyHandler}
    {stmt : Stmt} {body : List Stmt} (htask : s.tasks k = some ⟨handler, stmt :: body⟩) :
    (∃ W', execStmt s.world k handler (fun _ => []) stmt = .ok W') ∧
      ∃ s' : Datagrams, s'.NoFault handlers ∧ s'.tasks k = some ⟨handler, body⟩ := by
  have hguard : s.Guard (.exec k fun _ => []) := ⟨_, htask, by simp⟩
  obtain ⟨s', hstep⟩ := hno [] s (.nil s) _ hguard
  have hno' := hno.run (.cons ⟨hguard, hstep⟩ (.nil s'))
  rw [step_exec htask rfl] at hstep
  obtain ⟨W', hexec, hret⟩ := bind_eq_ok.mp hstep
  obtain rfl := Except.ok.inj hret
  exact ⟨⟨W', hexec⟩, _, hno', by simp⟩

omit hI in
/-- A handler that is about to reply faults. -/
theorem NoFault.not_replying {s : Datagrams} (hno : s.NoFault handlers) {k : Nat}
    {handler : AnyHandler} {rest : List Stmt} :
    s.tasks k ≠ some ⟨handler, .call :: .beginReply :: rest⟩ := by
  intro htask
  obtain ⟨-, s', hno', htask'⟩ := hno.exec htask
  obtain ⟨⟨W', hexec⟩, -⟩ := hno'.exec htask'
  cases hexec

omit hI in
theorem NoFault.isUdp {s : Datagrams} (hno : s.NoFault handlers) {k : Nat} {handler : AnyHandler}
    (htask : s.tasks k = some ⟨handler, emitHandler handler⟩) : handler.IsUdp := by
  by_contra hudp
  obtain ⟨rest, hbody | hbody⟩ := emitHandler_not_udp hudp
  · exact hno.not_replying (hbody ▸ htask)
  · rw [hbody] at htask
    obtain ⟨-, s', hno', htask'⟩ := hno.exec htask
    exact hno'.not_replying htask'

/-- **Nobody replies** to a datagram that does no harm. -/
theorem Inv.isUdp (hdec : Decodable handlers packets) (hquiet : s.Quiet) (hno : s.NoFault handlers) :
    ∀ k ∈ s.pending, ∀ packet, packets[k]? = some packet → 4 ≤ packet.length →
      ∀ handler, handlers (rpcIdOf packet) = some handler → handler.IsUdp := by
  induction hlist : s.pending generalizing s with
  | nil => simp
  | cons k pending ih =>
    obtain ⟨-, packet, hpacket, -⟩ := hI.pending k (by simp [hlist])
    -- the first request
    have hfirst : 4 ≤ packet.length →
        ∀ handler, handlers (rpcIdOf packet) = some handler → handler.IsUdp := by
      intro hlen handler hfind
      obtain ⟨s₁, heq₁, -, -, -, hk⟩ := hI.dispatch hlist hpacket
      have hnext : Next handlers s .dispatch s₁ := ⟨⟨by simp [hlist], hquiet⟩, heq₁⟩
      have hno₁ := hno.run (.cons hnext (.nil s₁))
      rw [if_neg (by omega), hfind] at hk
      exact hno₁.isUdp hk
    -- and the others, after it was dealt with
    obtain ⟨ops, s', hrun, hI', hpending', hquiet'⟩ := hI.deal hdec hquiet hlist hpacket hfirst
    intro j hj
    cases hj with
    | head =>
      intro p hp
      obtain rfl : p = packet := Option.some.inj (hp.symm.trans hpacket)
      exact hfirst
    | tail _ hj => exact ih hI' hquiet' (hno.run hrun) hpending' j hj

end Invariant

end Datagrams

/-! ## Any datagram -/

/-- A datagram that gets through the first loop was received and is made of frames. -/
theorem framed_of_receive {W W' : World ConnName} {ws : Set ConnName} (hv : Vacant W ws)
    {r : RecvFrom} {n : Nat} (heq : receive W r = .ok (W', n)) :
    0 ≤ r.cnt ∧ ∃ packets, FramesOf r.datagram packets := by
  have hgood := mt (receive_fails hv r) (by simp [heq])
  rw [not_or] at hgood
  exact ⟨Int.not_lt.mp hgood.1, (framed_or_negative r.datagram).resolve_right hgood.2⟩

/-- Whatever the handlers are, the requests are the frames of the datagram. -/
theorem inv_of_receive {W W' : World ConnName} {ws : Set ConnName} (hv : Vacant W ws)
    (handlers : Int32 → Option AnyHandler) {r : RecvFrom} {n : Nat}
    (heq : receive W r = .ok (W', n)) {packets : List (List UInt8)}
    (hframed : FramesOf r.datagram packets) :
    n = packets.length ∧ (Datagrams.init W' n).Inv handlers packets := by
  obtain ⟨W'', heq', hW, hslices⟩ := receive_eq hv r (framed_of_receive hv heq).1 hframed
  obtain ⟨rfl, rfl⟩ : W' = W'' ∧ n = packets.length :=
    Prod.mk.inj (Except.ok.inj (heq.symm.trans heq'))
  exact ⟨rfl, Datagrams.inv_init hW hslices⟩

/-- A datagram that does not abort the server names `udp` functions only. -/
theorem NeverAborts.allUdp {W : World ConnName} {ws : Set ConnName} (hv : Vacant W ws)
    {handlers : Int32 → Option AnyHandler} {r : RecvFrom} (hnever : NeverAborts handlers W r)
    {packets : List (List UInt8)} (hframed : FramesOf r.datagram packets)
    (hdec : Decodable handlers packets) : AllUdp handlers packets := by
  obtain ⟨W', n, heq, hno, -⟩ := hnever
  obtain ⟨rfl, hI⟩ := inv_of_receive hv handlers heq hframed
  intro packet hmem
  obtain ⟨k, hlt, hk⟩ := List.getElem_of_mem hmem
  have hquiet : (Datagrams.init W' packets.length).Quiet := by
    intro j task hj
    simp [Datagrams.init] at hj
  exact hI.isUdp hdec hquiet hno k (List.mem_range.mpr hlt) packet
    (by rw [List.getElem?_eq_getElem hlt, hk])

/-- **No datagram aborts the server** if and only if it was received, is made of frames up to
    something that does not pass for one, and these frames name `udp` functions only. -/
theorem neverAborts_iff {W : World ConnName} {ws : Set ConnName} (hv : Vacant W ws)
    (handlers : Int32 → Option AnyHandler) (r : RecvFrom)
    (hdec : ∀ packets, FramesOf r.datagram packets → Decodable handlers packets) :
    NeverAborts handlers W r ↔ Harmless handlers r := by
  constructor
  · intro hnever
    have hreceived := hnever
    obtain ⟨W', n, heq, -⟩ := hreceived
    obtain ⟨hcnt, packets, hframed⟩ := framed_of_receive hv heq
    exact ⟨hcnt, packets, hframed, hnever.allUdp hv hframed (hdec packets hframed)⟩
  · intro hharmless
    obtain ⟨hcnt, packets, hframed, hudp⟩ := hharmless
    obtain ⟨W', heq, -⟩ := receive_eq hv r hcnt hframed
    obtain ⟨-, hI⟩ := inv_of_receive hv handlers heq hframed
    refine ⟨W', packets.length, heq, hI.noFault hudp (hdec packets hframed), ?_⟩
    intro packets' hframed'
    obtain ⟨hlen, hI'⟩ := inv_of_receive hv handlers heq hframed'
    refine ⟨hlen, fun ops s hrun k task htask => ?_⟩
    exact ((hI'.run hrun).tasks k task htask).started

/-- Frames are found in one way only. -/
theorem FramesOf.unique {r : RecvFrom} {packets packets' : List (List UInt8)}
    (h : FramesOf r.datagram packets) (h' : FramesOf r.datagram packets') : packets = packets' := by
  obtain ⟨rest, hbytes, hnot⟩ := h
  obtain ⟨rest', hbytes', hnot'⟩ := h'
  have hlt := r.packet_lt hbytes
  have hlt' := r.packet_lt hbytes'
  rw [hbytes] at hbytes'
  clear hbytes
  induction packets generalizing packets' with
  | nil =>
    cases packets' with
    | nil => rfl
    | cons packet' packets' =>
      rw [List.flatMap_nil, List.nil_append, List.flatMap_cons, List.append_assoc] at hbytes'
      exact absurd (hbytes' ▸ frameReady_frame (hlt' packet' (.head _)) _) hnot
  | cons packet packets ih =>
    cases packets' with
    | nil =>
      rw [List.flatMap_nil, List.nil_append, List.flatMap_cons, List.append_assoc] at hbytes'
      exact absurd (hbytes' ▸ frameReady_frame (hlt packet (.head _)) _) hnot'
    | cons packet' packets' =>
      simp only [List.flatMap_cons, List.append_assoc] at hbytes'
      obtain ⟨rfl, hrest⟩ := frame_append_inj (hlt packet (.head _)) (hlt' packet' (.head _)) hbytes'
      rw [ih hrest (fun p hp => hlt p (.tail _ hp)) fun p hp => hlt' p (.tail _ hp)]

/-! ## The benchmark service -/

/-- `recvfrom` has received `bytes`. -/
def received (bytes : List UInt8) (hlen : bytes.length ≤ maxUdpPacketSize) : RecvFrom where
  cnt := bytes.length
  buffer := bytes ++ List.replicate (maxUdpPacketSize - bytes.length) 0
  buffer_length := by
    rw [List.length_append, List.length_replicate]
    omega
  ge_neg_one := by omega
  le_max := by omega

/-- `recvfrom` has returned -1. -/
def failedRecv : RecvFrom where
  cnt := -1
  buffer := List.replicate maxUdpPacketSize 0
  buffer_length := List.length_replicate
  ge_neg_one := by omega
  le_max := by omega

theorem received_datagram (bytes : List UInt8) (hlen : bytes.length ≤ maxUdpPacketSize) :
    (received bytes hlen).datagram = bytes := by
  simp [received, RecvFrom.datagram]

/-- One frame, and nothing behind it. -/
theorem framed_single {packet : List UInt8} (hlen : (frame packet).length ≤ maxUdpPacketSize) :
    FramesOf (received (frame packet) hlen).datagram [packet] :=
  ⟨[], by simp [received_datagram], not_frameReady_nil⟩

/-- `udp lossy_nop(i32 dummy, i32 dummy2);` -/
def lossyNopFunc : CppFunc :=
  ⟨[.udp], .cons "dummy" (.leaf .i32) (.cons "dummy2" (.leaf .i32) .nil), by decide, by decide⟩

/-- `fast fast_nop(string);` -/
def fastNopFunc : CppFunc := ⟨[.fast], .cons "in_0" (.leaf .string) .nil, by decide, by decide⟩

/-- Two functions as they stand in `test/benchmark_service.h`, and one of a Python service. -/
def benchmarkTable (rpcId : Int32) : Option AnyHandler :=
  if rpcId = 0x5323ea07 then some (.cpp lossyNopFunc)
  else if rpcId = 0x4f29b7a5 then some (.cpp fastNopFunc)
  else if rpcId = 0x10000001 then some .python
  else none

theorem vacant_init : Vacant (World.init .empty) Set.univ :=
  ⟨World.inv_init _ _, trivial, rfl, fun _ => rfl⟩

/-- What was encoded can be decoded. -/
theorem Fields.decodes_enc {fs : Fields} {x : fs.Obj} (hx : fs.Fits x) (rest : List UInt8) :
    fs.Decodes (fs.enc x ++ rest) := by
  intro bufs h m hok hcontent
  obtain ⟨m', hget, -⟩ := Fields.gets_get bufs fs x hx h m rest hok hcontent
  exact ⟨_, hget⟩

/-- `lossy_nop(1, 2)` -/
def lossyNop : List UInt8 := [0x07, 0xea, 0x23, 0x53, 1, 0, 0, 0, 2, 0, 0, 0]

theorem lossyNop_find : benchmarkTable (rpcIdOf lossyNop) = some (.cpp lossyNopFunc) := rfl

theorem decodable_lossyNop : Decodable benchmarkTable [lossyNop] := by
  intro packet hmem _ func hfind _
  obtain rfl : packet = lossyNop := List.mem_singleton.mp hmem
  obtain rfl : lossyNopFunc = func := by simpa [lossyNop_find] using hfind
  have hfits : lossyNopFunc.input.Fits ((1 : Int32), (2 : Int32), ()) := by
    simp [lossyNopFunc, Fields.Fits, Ty.Fits, Leaf.Fits]
  exact Fields.decodes_enc hfits []

/-- A call of `lossy_nop`. -/
theorem neverAborts_lossyNop :
    Harmless benchmarkTable (received (frame lossyNop) (by decide)) ∧
      NeverAborts benchmarkTable (World.init .empty) (received (frame lossyNop) (by decide)) := by
  have hframed : FramesOf (received (frame lossyNop) (by decide)).datagram [lossyNop] := framed_single _
  have hharmless : Harmless benchmarkTable (received (frame lossyNop) (by decide)) := by
    refine ⟨by decide, [lossyNop], hframed, ?_⟩
    intro packet hmem _ handler hfind
    obtain rfl : packet = lossyNop := List.mem_singleton.mp hmem
    obtain rfl : .cpp lossyNopFunc = handler := by simpa [lossyNop_find] using hfind
    simp [AnyHandler.IsUdp, lossyNopFunc]
  refine ⟨hharmless, (neverAborts_iff vacant_init _ _ ?_).mpr hharmless⟩
  intro packets hframed'
  rw [hframed'.unique hframed]
  exact decodable_lossyNop

/-- The frame of a function that is not `udp` aborts the server. -/
theorem not_neverAborts_of_not_udp {packet : List UInt8} (handler : AnyHandler)
    (hlen : (frame packet).length ≤ maxUdpPacketSize) (h4 : 4 ≤ packet.length)
    (hfind : benchmarkTable (rpcIdOf packet) = some handler) (hudp : ¬ handler.IsUdp) :
    ¬ NeverAborts benchmarkTable (World.init .empty) (received (frame packet) hlen) := by
  intro hnever
  have hdec : Decodable benchmarkTable [packet] := by
    intro p hmem _ func hfunc hflag
    obtain rfl : p = packet := List.mem_singleton.mp hmem
    obtain rfl : .cpp func = handler := Option.some.inj (hfunc.symm.trans hfind)
    exact absurd hflag hudp
  exact hudp (hnever.allUdp vacant_init (framed_single hlen) hdec packet (.head _) h4 handler hfind)

/-- **Datagrams that abort the server**: `recvfrom` fails, the size is -1, or the frame names a
    function that replies, of a C++ or of a Python service. -/
theorem datagrams_abort :
    ¬ NeverAborts benchmarkTable (World.init .empty) failedRecv ∧
    ¬ NeverAborts benchmarkTable (World.init .empty) (received [0xff, 0xff, 0xff, 0xff] (by decide)) ∧
    ¬ NeverAborts benchmarkTable (World.init .empty)
      (received (frame [0xa5, 0xb7, 0x29, 0x4f]) (by decide)) ∧
    ¬ NeverAborts benchmarkTable (World.init .empty)
      (received (frame [1, 0, 0, 0x10]) (by decide)) := by
  refine ⟨?_, ?_, ?_, ?_⟩
  · intro hnever
    obtain ⟨W', n, heq, -⟩ := hnever
    obtain ⟨e, he⟩ := receive_fails vacant_init failedRecv (.inl (by decide))
    cases heq.symm.trans he
  · intro hnever
    obtain ⟨W', n, heq, -⟩ := hnever
    have hbad : FrameReady [0xff, 0xff, 0xff, 0xff] ∧
        (packetSize [0xff, 0xff, 0xff, 0xff]).toInt < 0 := by decide
    obtain ⟨e, he⟩ := receive_fails vacant_init (received [0xff, 0xff, 0xff, 0xff] (by decide))
      (.inr ⟨[], _, received_datagram .., hbad⟩)
    cases heq.symm.trans he
  · exact not_neverAborts_of_not_udp (.cpp fastNopFunc) (by decide) (by decide) rfl
      (by simp [AnyHandler.IsUdp, fastNopFunc])
  · exact not_neverAborts_of_not_udp .python (by decide) (by decide) rfl id

end SimpleRpc.Rpc
