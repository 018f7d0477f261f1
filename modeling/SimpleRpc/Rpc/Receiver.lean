import SimpleRpc.Rpc.Sender

/-!
# The Receiving Half of a Connection

`Client::handle_read` and `ServerTcpConnection::handle_read` begin in the same way: a
`read_from_fd` into `in_`, and then a loop that peeks at the size of the next packet and, if
`in_` holds all of it, consumes the size.

## Main results

- `takeSize_ready`, `takeSize_not_ready`: the head of the loop
- `FrameReady.complete`, `Complete.frameReady`: what its test has to do with complete packets
- `ready_frame`, `ready_wellFormed`: what the head of the loop finds behind a size that is not
  negative, and in front of a packet that is not malformed
- `flatMap_frame_append_inj`, `ready_of_frames`: a stream of messages falls apart into these
  messages only, whatever part of it has arrived
-/

namespace SimpleRpc.Rpc

open SimpleRpc.Lib SimpleRpc.Base

/-- The Marshals around a connection. -/
inductive ConnName where
  | in_
  | out_
  /-- `m` of a Request, `reply_` of a Future -/
  | slice (k : Nat)
  /-- the Marshals of the application -/
  | user (k : Nat)
  deriving DecidableEq

/-- The Marshals that hold no slices. -/
def ConnName.owned : Set ConnName := { i | ∀ k, i ≠ .slice k }

/-- `packet_size`, as it stands in front of `bytes`. -/
def packetSize (bytes : List UInt8) : Int32 := i32OfBytes (bytes.take 4)

/-- The test in the frame loops: `bytes` starts with a packet that is complete. -/
def FrameReady (bytes : List UInt8) : Prop :=
  4 ≤ bytes.length ∧ sizeT ((packetSize bytes).toInt + 4) ≤ bytes.length

instance (bytes : List UInt8) : Decidable (FrameReady bytes) := by
  unfold FrameReady
  infer_instance

theorem not_frameReady_nil : ¬ FrameReady [] := by
  rintro ⟨hlen, -⟩
  simp at hlen

/-- The head of the frame loops: if the next packet is complete, its size is consumed. -/
def takeSize (W : World ConnName) : Except Fault (Option (World ConnName × Int32)) :=
  let peeked := W.peek .in_ 4
  if peeked.length = 4 ∧ sizeT ((i32OfBytes peeked).toInt + 4) ≤ W.contentSize .in_ then do
    let (W, bytes) ← W.read .in_ 4
    verify (bytes.length = 4)
    pure (some (W, i32OfBytes bytes))
  else
    pure none

section TakeSize

variable {W : World ConnName} {ws : Set ConnName} (hI : W.Inv ws)

include hI

private theorem takeSize_test :
    ((W.peek .in_ 4).length = 4 ∧
      sizeT ((i32OfBytes (W.peek .in_ 4)).toInt + 4) ≤ W.contentSize .in_) ↔
    FrameReady (W.content .in_) := by
  rw [World.peek_eq hI.ok.ok, World.contentSize_eq hI.ok.ok, FrameReady, packetSize,
    List.length_take]
  refine and_congr_left fun _ => ?_
  omega

theorem takeSize_not_ready (hr : ¬ FrameReady (W.content .in_)) : takeSize W = .ok none := by
  have htest := mt (takeSize_test hI).mp hr
  simp only [takeSize, htest, if_false, pure_eq_ok]

theorem takeSize_ready (hr : FrameReady (W.content .in_)) :
    ∃ W', takeSize W = .ok (some (W', packetSize (W.content .in_))) ∧
      World.Updates W W' ws .in_ ((W.content .in_).drop 4) (W.writeCnt .in_) := by
  have htest := (takeSize_test hI).mpr hr
  obtain ⟨W', heq, hu⟩ := hI.read .in_ 4
  refine ⟨W', ?_, hu⟩
  have hlen : ((W.content .in_).take 4).length = 4 := by
    rw [List.length_take]
    have := hr.1
    omega
  rw [takeSize, if_pos htest, heq]
  simp only [ok_bind, verify_of hlen, pure_eq_ok, packetSize]

end TakeSize

/-! ## Packets -/

/-- The payload of a request or reply that starts with a whole `xid`. -/
structure WellFormed (packet : List UInt8) : Prop where
  pos : 1 ≤ packet.length
  lt : packet.length < 2 ^ 31
  xid : SparseInt.bufSize (packet.getD 0 0) ≤ packet.length

/-- `bytes` starts with a packet that passes for complete although its size is not positive, or
    too small for the `xid` it starts with. -/
def Malformed (bytes : List UInt8) : Prop :=
  FrameReady bytes ∧
    (packetSize bytes).toInt < SparseInt.bufSize (bytes.getD 4 0)

/-- `bytes` starts with a packet of which no byte is missing, in the numbers of the wire and not in the
    arithmetic of the frame loops. A negative size asks for nothing behind it, so that such a packet is
    complete as soon as its size is there. -/
def Complete (bytes : List UInt8) : Prop :=
  4 ≤ bytes.length ∧ (packetSize bytes).toInt + 4 ≤ bytes.length

instance (bytes : List UInt8) : Decidable (Complete bytes) := by
  unfold Complete
  infer_instance

/-- `bytes` starts with a complete packet whose size is negative, or too small for the `xid` it starts
    with. -/
def TooShort (bytes : List UInt8) : Prop :=
  Complete bytes ∧
    (packetSize bytes).toInt < SparseInt.bufSize (bytes.getD 4 0)

instance (bytes : List UInt8) : Decidable (TooShort bytes) := by
  unfold TooShort
  infer_instance

theorem sizeT_add_four {x : Int32} (hx : 0 ≤ x.toInt) : sizeT (x.toInt + 4) = x.toInt.toNat + 4 := by
  have := x.toInt_lt
  unfold sizeT
  omega

theorem sizeT_nonneg {x : Int32} (hx : 0 ≤ x.toInt) : sizeT x.toInt = x.toInt.toNat := by
  have := x.toInt_lt
  unfold sizeT
  omega

/-- The test in the frame loops lets no packet through of which a byte is missing. -/
theorem FrameReady.complete {bytes : List UInt8} (hr : FrameReady bytes) : Complete bytes := by
  obtain ⟨hlen, hsize⟩ := hr
  refine ⟨hlen, ?_⟩
  rcases lt_or_ge (packetSize bytes).toInt 0 with hneg | hpos
  · omega
  · rw [sizeT_add_four hpos] at hsize
    omega

theorem Malformed.tooShort {bytes : List UInt8} (hm : Malformed bytes) : TooShort bytes :=
  ⟨hm.1.complete, hm.2⟩

/-- A complete packet passes the test in the frame loops, if its size is not too small. -/
theorem Complete.frameReady {bytes : List UInt8} (hc : Complete bytes) (hshort : ¬ TooShort bytes) :
    FrameReady bytes := by
  have hxid : (SparseInt.bufSize (bytes.getD 4 0) : Int) ≤ (packetSize bytes).toInt :=
    Int.not_lt.mp fun hlt => hshort ⟨hc, hlt⟩
  obtain ⟨hlen, hsize⟩ := hc
  refine ⟨hlen, ?_⟩
  rw [sizeT_add_four (by omega)]
  omega

/-- The size is there as soon as four bytes are. -/
theorem packetSize_of_prefix {bytes more : List UInt8} (hstart : bytes <+: more)
    (hlen : 4 ≤ bytes.length) : packetSize more = packetSize bytes := by
  obtain ⟨rest, rfl⟩ := hstart
  rw [packetSize, packetSize, List.take_append_of_le_length hlen]

/-- A size below -4 is so large as a `size_t` that the test in the frame loops fails. -/
theorem not_frameReady_of_negative {bytes : List UInt8} (hneg : (packetSize bytes).toInt < -4)
    (hlen : bytes.length < 2 ^ 63) : ¬ FrameReady bytes := by
  rintro ⟨-, hsize⟩
  have hle := (packetSize bytes).le_toInt
  have hwrap : (2 : Nat) ^ 63 ≤ sizeT ((packetSize bytes).toInt + 4) := by
    unfold sizeT
    omega
  omega

theorem not_complete_nil : ¬ Complete [] := by
  rintro ⟨hlen, -⟩
  simp at hlen

theorem leBytes_i32 {bs : List UInt8} (hlen : bs.length = 4) (hpos : 0 ≤ (i32OfBytes bs).toInt) :
    leBytes 4 (i32OfBytes bs).toInt.toNat = bs := by
  have hlt := leNat_lt bs
  rw [hlen] at hlt
  have hu : (i32OfBytes bs).toUInt32.toNat = leNat bs := by
    rw [i32OfBytes, Int32.toUInt32, UInt32.toInt32]
    simp [UInt32.toNat_ofNat_of_lt' (show leNat bs < UInt32.size by simpa using hlt)]
  have hnat : (i32OfBytes bs).toInt.toNat = leNat bs := by
    have hmod := SparseInt.toNat_toUInt32 (i32OfBytes bs)
    have := (i32OfBytes bs).toInt_lt
    omega
  have hback := leBytes_leNat bs
  rwa [hlen, ← hnat] at hback

/-- What the loop finds behind a size that is not negative. -/
theorem ready_frame {bytes : List UInt8} (hr : FrameReady bytes)
    (hpos : 0 ≤ (packetSize bytes).toInt) :
    ∃ packet rest, bytes = frame packet ++ rest ∧ (packetSize bytes).toInt = packet.length := by
  have hlt := (packetSize bytes).toInt_lt
  obtain ⟨h4, hsize⟩ := hr
  rw [sizeT_add_four hpos] at hsize
  have hlen : ((bytes.drop 4).take (packetSize bytes).toInt.toNat).length =
      (packetSize bytes).toInt.toNat := by
    rw [List.length_take, List.length_drop]
    omega
  refine ⟨(bytes.drop 4).take (packetSize bytes).toInt.toNat,
    (bytes.drop 4).drop (packetSize bytes).toInt.toNat, ?_, ?_⟩
  · rw [frame, hlen, List.append_assoc, List.take_append_drop]
    have hhead := leBytes_i32 (show (bytes.take 4).length = 4 by rw [List.length_take]; omega) hpos
    rw [packetSize, hhead, List.take_append_drop]
  · rw [hlen]
    omega

/-- The first byte of the payload. -/
theorem getD_frame {packet : List UInt8} (hpos : 1 ≤ packet.length) (rest : List UInt8) :
    (frame packet ++ rest).getD 4 0 = packet.getD 0 0 := by
  rw [frame, List.append_assoc, List.getD_append_right _ _ _ _ (by simp), leBytes_length,
    List.getD_append _ _ _ _ (by omega)]

/-- What the loop finds behind a size that is not malformed. -/
theorem ready_wellFormed {bytes : List UInt8} (hr : FrameReady bytes) (hm : ¬ Malformed bytes) :
    ∃ packet rest, bytes = frame packet ++ rest ∧ WellFormed packet ∧
      (packetSize bytes).toInt = packet.length := by
  have hxid : (SparseInt.bufSize (bytes.getD 4 0) : Int) ≤ (packetSize bytes).toInt :=
    Int.not_lt.mp fun hlt => hm ⟨hr, hlt⟩
  have hpos := SparseInt.bufSize_pos (bytes.getD 4 0)
  have hlt := (packetSize bytes).toInt_lt
  obtain ⟨packet, rest, hbytes, hsize⟩ := ready_frame hr (by omega)
  refine ⟨packet, rest, hbytes, ⟨by omega, by omega, ?_⟩, hsize⟩
  rw [← getD_frame (by omega) rest, ← hbytes]
  omega

/-! ## Streams of messages -/

theorem packetSize_frame {packet : List UInt8} (hlt : packet.length < 2 ^ 31) (rest : List UInt8) :
    (packetSize (frame packet ++ rest)).toInt = packet.length := by
  rw [packetSize, frame, List.append_assoc, List.take_left' (leBytes_length ..),
    i32OfBytes_leBytes hlt]

theorem frameReady_frame {packet : List UInt8} (hlt : packet.length < 2 ^ 31) (rest : List UInt8) :
    FrameReady (frame packet ++ rest) := by
  have hsize := packetSize_frame hlt rest
  rw [FrameReady, sizeT_add_four (by omega), hsize, List.length_append, frame_length]
  omega

theorem not_malformed_frame {packet : List UInt8} (hwf : WellFormed packet) (rest : List UInt8) :
    ¬ Malformed (frame packet ++ rest) := by
  rintro ⟨-, hlt⟩
  rw [packetSize_frame hwf.lt] at hlt
  rw [getD_frame hwf.pos] at hlt
  have := hwf.xid
  omega

theorem frame_append_inj {p q x y : List UInt8} (hp : p.length < 2 ^ 31) (hq : q.length < 2 ^ 31)
    (h : frame p ++ x = frame q ++ y) : p = q ∧ x = y := by
  rw [frame, frame, List.append_assoc, List.append_assoc] at h
  obtain ⟨hsize, hrest⟩ := List.append_inj h (by simp)
  have hlen : p.length = q.length := by
    rw [← leNat_leBytes_of_lt (k := 4) (show p.length < 256 ^ 4 by omega), hsize,
      leNat_leBytes_of_lt (by omega)]
  exact List.append_inj hrest hlen

/-- Whole messages at the front of a stream of messages are its first messages. -/
theorem flatMap_frame_append_inj {ps qs : List (List UInt8)} {r : List UInt8}
    (hps : ∀ p ∈ ps, p.length < 2 ^ 31) (hqs : ∀ q ∈ qs, q.length < 2 ^ 31)
    (h : ps.flatMap frame ++ r = qs.flatMap frame) :
    ∃ qs', qs = ps ++ qs' ∧ r = qs'.flatMap frame := by
  induction ps generalizing qs with
  | nil => exact ⟨qs, rfl, h⟩
  | cons p ps ih =>
    cases qs with
    | nil =>
      have := congrArg List.length h
      simp at this
    | cons q qs =>
      simp only [List.flatMap_cons, List.append_assoc] at h
      obtain ⟨rfl, htail⟩ := frame_append_inj (hps p (by simp)) (hqs q (by simp)) h
      obtain ⟨qs', rfl, hr⟩ := ih (fun p hp => hps p (List.mem_cons_of_mem _ hp))
        (fun q hq => hqs q (List.mem_cons_of_mem _ hq)) htail
      exact ⟨qs', rfl, hr⟩

/-- If the test in the frame loop succeeds on a part of a stream of messages, that part starts
    with the first message. -/
theorem ready_of_frames {c t : List UInt8} {qs : List (List UInt8)}
    (hqs : ∀ q ∈ qs, q.length < 2 ^ 31) (h : c ++ t = qs.flatMap frame) (hr : FrameReady c) :
    ∃ q qs' rest, qs = q :: qs' ∧ c = frame q ++ rest ∧ rest ++ t = qs'.flatMap frame := by
  cases qs with
  | nil =>
    -- nothing is left of the stream, and the size field is missing
    have hlen := congrArg List.length h
    rw [List.length_append, List.flatMap_nil, List.length_nil] at hlen
    have := hr.1
    omega
  | cons q qs =>
    have hq := hqs q (by simp)
    rw [List.flatMap_cons] at h
    -- the size field is there
    have hsize : (packetSize c).toInt = q.length := by
      have htake := congrArg (List.take 4) h
      rw [List.take_append_of_le_length hr.1,
        List.take_append_of_le_length (by simp)] at htake
      rw [packetSize, htake, ← packetSize, ← List.append_nil (frame q), packetSize_frame hq]
    -- all of the first message is there
    have hlen : (frame q).length ≤ c.length := by
      have := hr.2
      rw [sizeT_add_four (by omega), hsize] at this
      rw [frame_length]
      omega
    rcases List.append_eq_append_iff.mp h with ⟨a, ha, ht⟩ | ⟨rest, hc, hrest⟩
    · -- not a byte more
      have : a = [] := by
        have := congrArg List.length ha
        rw [List.length_append] at this
        exact List.length_eq_zero_iff.mp (by omega)
      subst this
      exact ⟨q, qs, [], rfl, by simpa using ha.symm, by simpa using ht⟩
    · -- with `rest` behind it
      exact ⟨q, qs, rest, rfl, hc, hrest.symm⟩

end SimpleRpc.Rpc
