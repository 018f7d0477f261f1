import SimpleRpc.Rpc.Client

/-!
# The Length of a Reply (`base/basetypes.cc`, `rpc/client.cc`)

`SparseInt` has its length classes in three places: in `val_size`, in the two `dump` functions,
and in the tag bits that `buf_size` looks at. `Client::handle_read` relies on all three: it lets
the decoders take as many bytes as `buf_size` says, and subtracts `val_size` of what they return
from the packet size.

## Layers

- **Code**: `replyHead`, the part of a round of the frame loop in front of the payload, and
  `Client.parse_eq_replyHead`, the round as it goes on from there
- **Lengths**: `dump64_lengths`, `dump32_lengths`, and `valSize_loadI64` for the values that come
  out of the decoder

## Main results

- `reply_length_iff`: the three functions agree on every value, and the difference that
  `handle_read` takes is what is left of a reply exactly below 2^31 bytes
- `reply_length_wraps`: a reply of 2^32 + 3 bytes
-/

namespace SimpleRpc.Base

namespace SparseInt

/-! ## The values -/

theorem stored_ite {c : Prop} [Decidable c] {a b : Nat × List UInt8} (ha : a.1 ≤ a.2.length)
    (hb : b.1 ≤ b.2.length) : (if c then a else b).1 ≤ (if c then a else b).2.length := by
  split
  · exact ha
  · exact hb

/-- `dump(i64)` stores all the bytes it reports. -/
theorem dump64_stored (val : Int64) (buf : List UInt8) :
    (dump64 val buf).1 ≤ (dump64 val buf).2.length := by
  unfold dump64 storeAt
  repeat' apply stored_ite
  all_goals simp

/-- The length that `dump(i64)` reports is that of the reported bytes. -/
theorem dump64_fst (val : Int64) (buf : List UInt8) :
    (dump64 val buf).1 = (encode64 val).length := by
  rw [← take_dump64 val buf, List.length_take, Nat.min_eq_left (dump64_stored val buf)]

/-- The first cell of the array is the first of the reported bytes. -/
theorem getD_zero_of_take {buf bytes : List UInt8} {n : Nat} (hn : 1 ≤ n)
    (htake : buf.take n = bytes) : buf.getD 0 0 = (bytes ++ []).getD 0 0 := by
  obtain ⟨k, rfl⟩ : ∃ k, n = k + 1 := ⟨n - 1, by omega⟩
  cases buf with
  | nil => simp_all
  | cons b bs =>
    rw [← htake, List.take_succ_cons]
    rfl

/-- The three length functions on a 64-bit value. -/
theorem dump64_lengths (val : Int64) (buf : List UInt8) :
    (dump64 val buf).1 = valSize val ∧ bufSize ((dump64 val buf).2.getD 0 0) = valSize val := by
  have hfst : (dump64 val buf).1 = valSize val := by rw [dump64_fst, encode64_length]
  refine ⟨hfst, ?_⟩
  rw [getD_zero_of_take (hfst ▸ valSize_pos val) (take_dump64 val buf)]
  exact bufSize_encode64 val []

/-- The three length functions on a 32-bit value. -/
theorem dump32_lengths (val : Int32) (buf : List UInt8) :
    (dump32 val buf).1 = valSize val.toInt64 ∧
      bufSize ((dump32 val buf).2.getD 0 0) = valSize val.toInt64 := by
  have hfst : (dump32 val buf).1 = valSize val.toInt64 := by rw [dump32_fst, encode32_length]
  refine ⟨hfst, ?_⟩
  rw [getD_zero_of_take (hfst ▸ valSize_pos _) (take_dump32 val buf)]
  exact bufSize_encode32 val []

/-- The decoder may return another value of the eight-byte class, but none of another class. -/
theorem valSize_loadI64 (val : Int64) {buf : List UInt8} (hbuf : buf.length = 9) :
    valSize (loadI64 (storeAt buf (encode64 val))) = valSize val := by
  by_cases h8 : valSize val = 8
  · have hload := loadI64_encode64_eight val h8 buf hbuf
    have hb : (buf.getD 8 0).toNat < 256 := (buf.getD 8 0).toNat_lt
    have hrange : -2 ^ 55 ≤ val.toInt ∧ val.toInt < 2 ^ 55 ∧
        (val.toInt < -2 ^ 48 ∨ 2 ^ 48 ≤ val.toInt) := by
      rcases encode64_cases val with ⟨k, -, h7, hk, -⟩ | ⟨-, -, hrange⟩ | ⟨hk, -⟩
      · omega
      · exact hrange
      · omega
    -- the bounds of the class are multiples of 256, so that the low-order byte does not matter
    generalize loadI64 (storeAt buf (encode64 val)) = w at hload
    have hval := toNat_toUInt64 val
    have hw := toNat_toUInt64 w
    have hlo := w.le_toInt
    have hhi := w.toInt_lt
    rw [h8]
    rcases encode64_cases w with ⟨k, h1, h7, -, -, hclass⟩ | ⟨hk, -⟩ | ⟨-, -, hclass⟩
    · have hpow : (2 : Int) ^ (7 * k - 1) ≤ 2 ^ 48 := pow_le_pow_right₀ (by decide) (by omega)
      omega
    · exact hk
    · omega
  · rw [loadI64_encode64 val h8]

end SparseInt

end SimpleRpc.Base

namespace SimpleRpc.Rpc

open SimpleRpc.Lib SimpleRpc.Base

/-! ## The replies -/

/-- What a round of the frame loop takes from `in_` in front of the payload, with
    `packet_size - v_reply_xid.val_size() - v_error_code.val_size()`. -/
def replyHead (W : World ConnName) (buf buf' : List UInt8) :
    Except Fault (Option (Int64 × Int32 × Int × World ConnName)) := do
  match ← takeSize W with
  | some (W, packetSize) =>
    let (replyXid, W) ← W.run .in_ (MarshalM.getV64 buf)
    let (errorCode, W) ← W.run .in_ (MarshalM.getV32 buf')
    let left := packetSize.toInt - SparseInt.valSize replyXid - SparseInt.valSize errorCode.toInt64
    pure (some (replyXid, errorCode, left, W))
  | none => pure none

/-- **Connection**: a round of the frame loop hands the difference to `read_from_marshal`. -/
theorem Client.parse_eq_replyHead {κ : Type} (s : Client κ) (buf buf' : List UInt8) :
    s.parse buf buf' = (do
      match ← replyHead s.world buf buf' with
      | some (replyXid, errorCode, left, W) =>
        match s.pendingFu replyXid with
        | some fu =>
          verify (fu.xid = replyXid)
          let (W, _) ← W.readFromMarshal (.slice fu.reply) .in_ (sizeT left)
          pure (s.complete W fu errorCode)
        | none => pure (s.skip W)
      | none => pure { s with parsing := false }) := by
  unfold Client.parse replyHead
  cases takeSize s.world with
  | error e => rfl
  | ok head =>
    rcases head with _ | ⟨W₁, packetSize⟩
    · rfl
    · cases hxid : W₁.run .in_ (MarshalM.getV64 buf) with
      | error e => simp only [ok_bind, hxid]; rfl
      | ok read =>
        obtain ⟨xid, W₂⟩ := read
        cases herr : W₂.run .in_ (MarshalM.getV32 buf') with
        | error e => simp only [ok_bind, hxid, herr]; rfl
        | ok read' =>
          cases hfu : s.pendingFu xid with
          | none => simp only [ok_bind, hxid, herr, hfu, pure_eq_ok]
          | some fu => simp only [ok_bind, hxid, herr, hfu, pure_eq_ok]

section Replies

variable {W : World ConnName} {ws : Set ConnName} (hI : W.Inv ws)

include hI

/-- In front of a reply whose size is read as a number that the bytes at hand can satisfy, all of
    the header is consumed, and the difference is taken from that number. -/
theorem World.Inv.replyHead {r : Reply} {rest buf : List UInt8}
    (hcontent : W.content .in_ = frame r.bytes ++ rest)
    (hr : FrameReady (frame r.bytes ++ rest)) (hbuf : buf.length = 9) (buf' : List UInt8) :
    ∃ xid W', replyHead W buf buf' = .ok (some (xid, r.errorCode,
        (packetSize (frame r.bytes ++ rest)).toInt - SparseInt.valSize r.xid -
          SparseInt.valSize r.errorCode.toInt64, W')) ∧
      W'.content .in_ = r.payload ++ rest := by
  obtain ⟨W₁, heq₁, hu₁⟩ := takeSize_ready hI (hcontent ▸ hr)
  have hin₁ : W₁.content .in_ =
      SparseInt.encode64 r.xid ++ (SparseInt.encode32 r.errorCode ++ (r.payload ++ rest)) := by
    rw [hu₁.content_same, hcontent, frame, List.append_assoc,
      List.drop_left' (leBytes_length ..)]
    simp only [Reply.bytes, List.append_assoc]
  obtain ⟨W₂, heq₂, hu₂⟩ := hu₁.inv.gets (gets_getV64_load buf r.xid) hin₁
  obtain ⟨W₃, heq₃, hu₃⟩ := hu₂.inv.gets (gets_getV32 buf' r.errorCode) hu₂.content_same
  refine ⟨SparseInt.loadI64 (SparseInt.storeAt buf (SparseInt.encode64 r.xid)), W₃, ?_,
    hu₃.content_same⟩
  rw [hcontent] at heq₁
  simp only [Rpc.replyHead, heq₁, ok_bind, heq₂, heq₃, SparseInt.valSize_loadI64 r.xid hbuf,
    pure_eq_ok]

/-- In front of an incomplete packet nothing is consumed. -/
theorem World.Inv.replyHead_not_ready (hr : ¬ FrameReady (W.content .in_)) (buf buf' : List UInt8) :
    Rpc.replyHead W buf buf' = .ok none := by
  simp only [Rpc.replyHead, takeSize_not_ready hI hr, ok_bind, pure_eq_ok]

end Replies

theorem Reply.bytes_length (r : Reply) : r.bytes.length =
    SparseInt.valSize r.xid + SparseInt.valSize r.errorCode.toInt64 + r.payload.length := by
  simp only [Reply.bytes, List.length_append, SparseInt.encode64_length, SparseInt.encode32_length]

/-- `handle_read` gets to the payload of `r`, and the difference it takes is what is left of `r`,
    also as the `size_t` that `read_from_marshal` gets. -/
def PayloadMeasured (W : World ConnName) (r : Reply) (rest buf buf' : List UInt8) : Prop :=
  ∃ xid left W', replyHead W buf buf' = .ok (some (xid, r.errorCode, left, W')) ∧
    W'.content .in_ = r.payload ++ rest ∧ left = r.payload.length ∧
    sizeT left = r.payload.length

/-- `n` bytes in front of any others are what the operator `act` consumes. -/
def Takes {α : Type} (act : MarshalM α) (bytes : List UInt8) (n : Nat) : Prop :=
  ∀ h (m : Marshal) rest, m.Ok h → m.content h = bytes ++ rest →
    ∃ x m', act (h, m) = .ok (x, h, m') ∧ m'.content h = rest ∧
      (m.content h).length = n + (m'.content h).length

theorem Gets.takes {α : Type} {act : MarshalM α} {bytes : List UInt8} {x : α} {n : Nat}
    (hg : Gets act bytes x) (hn : bytes.length = n) : Takes act bytes n := by
  intro h m rest hm hcontent
  obtain ⟨m', heq, hc, -⟩ := hg h m rest hm hcontent
  have hrest : m'.content h = rest := by rw [hc.content_eq, hcontent, List.drop_left]
  refine ⟨x, m', heq, hrest, ?_⟩
  rw [hrest, hcontent, List.length_append, hn]

/-- The three functions give one length to a value that `dump` has written, and the operator `act`
    takes as many bytes, whatever its local array held. -/
def OneLength {α : Type} (valSize : Nat) (dumped : Nat × List UInt8)
    (act : List UInt8 → MarshalM α) : Prop :=
  valSize = dumped.1 ∧ SparseInt.bufSize (dumped.2.getD 0 0) = dumped.1 ∧
    ∀ buf, Takes (act buf) (dumped.2.take dumped.1) dumped.1

theorem oneLength_dump64 (v : Int64) (buf : List UInt8) :
    OneLength (SparseInt.valSize v) (SparseInt.dump64 v buf) MarshalM.getV64 := by
  obtain ⟨hfst, hfirst⟩ := SparseInt.dump64_lengths v buf
  refine ⟨hfst.symm, hfirst.trans hfst.symm, fun buf' => ?_⟩
  rw [SparseInt.take_dump64]
  exact (gets_getV64_load buf' v).takes (SparseInt.dump64_fst v buf).symm

theorem oneLength_dump32 (v : Int32) (buf : List UInt8) :
    OneLength (SparseInt.valSize v.toInt64) (SparseInt.dump32 v buf) MarshalM.getV32 := by
  obtain ⟨hfst, hfirst⟩ := SparseInt.dump32_lengths v buf
  refine ⟨hfst.symm, hfirst.trans hfst.symm, fun buf' => ?_⟩
  rw [SparseInt.take_dump32]
  exact (gets_getV32 buf' v).takes (SparseInt.dump32_fst v buf).symm

/-- **The lengths of a reply**: on every value, `val_size`, the result of `dump` and `buf_size` of
    the first byte are one number, and it is what the decoders consume; and the difference that
    `handle_read` takes is what is left of a reply if and only if the reply has fewer than 2^31
    bytes. -/
theorem reply_length_iff (v : Int64) (v' : Int32) (array : List UInt8) {W : World ConnName}
    {ws : Set ConnName} (hI : W.Inv ws) (r : Reply) (rest buf buf' : List UInt8)
    (hbuf : buf.length = 9) (hcontent : W.content .in_ = frame r.bytes ++ rest) :
    OneLength (SparseInt.valSize v) (SparseInt.dump64 v array) MarshalM.getV64 ∧
    OneLength (SparseInt.valSize v'.toInt64) (SparseInt.dump32 v' array) MarshalM.getV32 ∧
    (PayloadMeasured W r rest buf buf' ↔ r.bytes.length < 2 ^ 31) := by
  refine ⟨oneLength_dump64 v array, oneLength_dump32 v' array, ?_⟩
  have hlen := r.bytes_length
  constructor
  · rintro ⟨xid, left, W', heq, -, hleft, -⟩
    by_cases hr : FrameReady (frame r.bytes ++ rest)
    · obtain ⟨xid₁, W₁, heq₁, -⟩ := hI.replyHead hcontent hr hbuf buf'
      rw [heq₁] at heq
      simp only [Except.ok.injEq, Option.some.injEq, Prod.mk.injEq] at heq
      -- an `i32` holds the number of these bytes
      have hlt := (packetSize (frame r.bytes ++ rest)).toInt_lt
      omega
    · rw [hI.replyHead_not_ready (hcontent ▸ hr)] at heq
      cases heq
  · intro hlt
    obtain ⟨xid, W', heq, hin⟩ := hI.replyHead hcontent (frameReady_frame hlt rest) hbuf buf'
    have hsize := packetSize_frame hlt rest
    refine ⟨xid, _, W', heq, hin, by omega, ?_⟩
    rw [sizeT]
    omega

/-- `in_` may hold any bytes. -/
theorem exists_world_in (bytes : List UInt8) :
    ∃ W : World ConnName, W.Inv ConnName.owned ∧ W.content .in_ = bytes := by
  have hmem : ConnName.in_ ∈ ConnName.owned := fun k => by simp
  obtain ⟨W, -, hu⟩ := (World.inv_init .empty ConnName.owned).write hmem bytes
  exact ⟨W, hu.inv, by rw [hu.content_same, World.content_init, List.nil_append]⟩

/-- The reply to a request with `xid` 300, with three bytes of payload and another reply behind. -/
theorem reply_length_small :
    ∃ W : World ConnName, W.content .in_ = frame (Reply.bytes ⟨300, 0, [1, 2, 3]⟩) ++ [9, 0] ∧
      PayloadMeasured W ⟨300, 0, [1, 2, 3]⟩ [9, 0] (List.replicate 9 0) [] := by
  obtain ⟨W, hI, hcontent⟩ := exists_world_in (frame (Reply.bytes ⟨300, 0, [1, 2, 3]⟩) ++ [9, 0])
  exact ⟨W, hcontent,
    (reply_length_iff 300 0 [] hI ⟨300, 0, [1, 2, 3]⟩ [9, 0] (List.replicate 9 0) [] rfl
      hcontent).2.2.mpr (by decide)⟩

/-- **A reply of 2^32 + 3 bytes** has the packet size 3, so that one byte of payload is taken and
    2^32 bytes are left. -/
theorem reply_length_wraps :
    ∃ (W : World ConnName) (r : Reply), r.payload.length = 2 ^ 32 + 1 ∧
      W.content .in_ = frame r.bytes ++ [] ∧
      (∃ xid W', replyHead W (List.replicate 9 0) [] = .ok (some (xid, 0, 1, W'))) ∧
      ¬ PayloadMeasured W r [] (List.replicate 9 0) [] := by
  obtain ⟨payload, hpayload⟩ : ∃ payload : List UInt8, payload.length = 2 ^ 32 + 1 :=
    ⟨List.replicate (2 ^ 32 + 1) 0, List.length_replicate⟩
  obtain ⟨W, hI, hcontent⟩ := exists_world_in (frame (Reply.bytes ⟨0, 0, payload⟩) ++ [])
  -- the reply is three bytes longer than 2^32
  have hlen : (Reply.bytes ⟨0, 0, payload⟩).length = 2 ^ 32 + 3 := by
    have hxid : SparseInt.valSize 0 = 1 := by decide
    have herr : SparseInt.valSize (Int32.toInt64 0) = 1 := by decide
    simp only [Reply.bytes_length, hpayload, hxid, herr, Nat.reducePow, Nat.reduceAdd]
  have hsize : packetSize (frame (Reply.bytes ⟨0, 0, payload⟩) ++ []) = 3 := by
    rw [packetSize, frame, List.append_assoc, List.take_left' (leBytes_length ..), hlen]
    rfl
  -- the frame passes for complete
  have hr : FrameReady (frame (Reply.bytes ⟨0, 0, payload⟩) ++ []) := by
    refine ⟨?_, ?_⟩
    · rw [List.append_nil, frame_length]
      omega
    · rw [hsize, List.append_nil, frame_length, hlen]
      decide
  obtain ⟨xid, W', heq, hin⟩ := hI.replyHead (r := ⟨0, 0, payload⟩) hcontent hr
    (List.length_replicate (n := 9)) []
  rw [hsize] at heq
  refine ⟨W, ⟨0, 0, payload⟩, hpayload, hcontent, ⟨xid, W', heq⟩, ?_⟩
  -- what is left by the code is 1, not the length of the payload
  rintro ⟨xid₂, left, W₂, heq₂, -, hleft, -⟩
  rw [heq] at heq₂
  simp only [Except.ok.injEq, Option.some.injEq, Prod.mk.injEq] at heq₂
  have hone : left = 1 := heq₂.2.2.1.symm.trans (by decide)
  rw [hone, hpayload] at hleft
  exact absurd hleft (by decide)

end SimpleRpc.Rpc
