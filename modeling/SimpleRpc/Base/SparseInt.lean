import Mathlib.Tactic.IntervalCases
import Mathlib.Data.List.GetD
import SimpleRpc.Lib.LittleEndian

/-!
# SparseInt: the Variable-Length Integer Code (`base/basetypes.cc`)

`SparseInt` stores a signed integer in one to nine bytes. The number of leading one bits
of the first byte gives the length, the remaining bits hold the two's complement value,
high-order byte first.

## Model

- `char* pv = (char *) &val` is `pv u k`, the `k`-th byte of the little-endian object
- the local arrays `char buf[5]`, `char buf[9]` are byte lists whose old contents are
  whatever was on the stack; `storeAt` overwrites a front part of one
- `dump` returns the length it reports together with the array it leaves behind

## Main results

- `loadI64_encode64`, `loadI32_encode32`: decoding the bytes that were reported
- `encode64_length`, `bufSize_encode64`: the three length functions agree
- `dump64_toInt64`: the two encoders agree on the 32-bit values
-/

namespace SimpleRpc.Base

open SimpleRpc.Lib

namespace SparseInt

/-! ## Length functions -/

/-- `SparseInt::buf_size`: the length announced by the first byte. -/
def bufSize (byte0 : UInt8) : Nat :=
  if byte0 &&& 0x80 = 0 then 1
  else if byte0 &&& 0xC0 = 0x80 then 2
  else if byte0 &&& 0xE0 = 0xC0 then 3
  else if byte0 &&& 0xF0 = 0xE0 then 4
  else if byte0 &&& 0xF8 = 0xF0 then 5
  else if byte0 &&& 0xFC = 0xF8 then 6
  else if byte0 &&& 0xFE = 0xFC then 7
  else if byte0 &&& 0xFF = 0xFE then 8
  else 9

/-- `SparseInt::val_size`: the length class of a value. -/
def valSize (val : Int64) : Nat :=
  if -64 ≤ val ∧ val ≤ 63 then 1
  else if -8192 ≤ val ∧ val ≤ 8191 then 2
  else if -1048576 ≤ val ∧ val ≤ 1048575 then 3
  else if -134217728 ≤ val ∧ val ≤ 134217727 then 4
  else if -17179869184 ≤ val ∧ val ≤ 17179869183 then 5
  else if -2199023255552 ≤ val ∧ val ≤ 2199023255551 then 6
  else if -281474976710656 ≤ val ∧ val ≤ 281474976710655 then 7
  else if -36028797018963968 ≤ val ∧ val ≤ 36028797018963967 then 8
  else 9

/-! ## Encoders -/

/-- `pv[k]`: the `k`-th byte of the object representation of `u`. -/
def pv (u k : Nat) : UInt8 := UInt8.ofNat (u / 256 ^ k)

/-- `buf[0] = x₀; buf[1] = x₁; ...`: overwrite the front of a local array. -/
def storeAt (buf xs : List UInt8) : List UInt8 := xs ++ buf.drop xs.length

/-- `SparseInt::dump(i32 val, char* buf)`. -/
def dump32 (val : Int32) (buf : List UInt8) : Nat × List UInt8 :=
  let pv := pv val.toUInt32.toNat
  if -64 ≤ val ∧ val ≤ 63 then
    (1, storeAt buf [pv 0 &&& 0x7F])
  else if -8192 ≤ val ∧ val ≤ 8191 then
    (2, storeAt buf [pv 1 &&& 0x3F ||| 0x80, pv 0])
  else if -1048576 ≤ val ∧ val ≤ 1048575 then
    (3, storeAt buf [pv 2 &&& 0x1F ||| 0xC0, pv 1, pv 0])
  else if -134217728 ≤ val ∧ val ≤ 134217727 then
    (4, storeAt buf [pv 3 &&& 0x0F ||| 0xE0, pv 2, pv 1, pv 0])
  else
    (5, storeAt buf [if val < 0 then 0xF7 else 0xF0, pv 3, pv 2, pv 1, pv 0])

/-- `SparseInt::dump(i64 val, char* buf)`. The eight-byte class fills nine cells of the
    array and reports eight. -/
def dump64 (val : Int64) (buf : List UInt8) : Nat × List UInt8 :=
  let pv := pv val.toUInt64.toNat
  if -64 ≤ val ∧ val ≤ 63 then
    (1, storeAt buf [pv 0 &&& 0x7F])
  else if -8192 ≤ val ∧ val ≤ 8191 then
    (2, storeAt buf [pv 1 &&& 0x3F ||| 0x80, pv 0])
  else if -1048576 ≤ val ∧ val ≤ 1048575 then
    (3, storeAt buf [pv 2 &&& 0x1F ||| 0xC0, pv 1, pv 0])
  else if -134217728 ≤ val ∧ val ≤ 134217727 then
    (4, storeAt buf [pv 3 &&& 0x0F ||| 0xE0, pv 2, pv 1, pv 0])
  else if -17179869184 ≤ val ∧ val ≤ 17179869183 then
    (5, storeAt buf [pv 4 &&& 0x07 ||| 0xF0, pv 3, pv 2, pv 1, pv 0])
  else if -2199023255552 ≤ val ∧ val ≤ 2199023255551 then
    (6, storeAt buf [pv 5 &&& 0x03 ||| 0xF8, pv 4, pv 3, pv 2, pv 1, pv 0])
  else if -281474976710656 ≤ val ∧ val ≤ 281474976710655 then
    (7, storeAt buf [pv 6 &&& 0x01 ||| 0xFC, pv 5, pv 4, pv 3, pv 2, pv 1, pv 0])
  else if -36028797018963968 ≤ val ∧ val ≤ 36028797018963967 then
    (8, storeAt buf [0xFE, pv 7, pv 6, pv 5, pv 4, pv 3, pv 2, pv 1, pv 0])
  else
    (9, storeAt buf [0xFF, pv 7, pv 6, pv 5, pv 4, pv 3, pv 2, pv 1, pv 0])

/-! ## Decoders -/

/-- The shared body of `load_i32` and `load_i64` for the short classes: the `bsize` bytes of
    `buf` become the low-order bytes of the value, the tag bits are cleared, and the sign
    bit is extended over the `width - bsize` bytes above. -/
def loadShort (width : Nat) (buf : List UInt8) (bsize : Nat) : List UInt8 :=
  let low := (List.range (bsize - 1)).map fun i => buf.getD (bsize - i - 1) 0
  let top := buf.getD 0 0 &&& (0xFF >>> UInt8.ofNat bsize)
  if (top >>> UInt8.ofNat (7 - bsize)) &&& 0x1 ≠ 0 then
    low ++ (top ||| (0xFF <<< UInt8.ofNat (7 - bsize))) :: List.replicate (width - bsize) 0xFF
  else
    low ++ top :: List.replicate (width - bsize) 0

/-- `SparseInt::load_i32`. -/
def loadI32 (buf : List UInt8) : Int32 :=
  let bsize := bufSize (buf.getD 0 0)
  let pv := if bsize < 5 then loadShort 4 buf bsize
    else (List.range 4).map fun i => buf.getD (4 - i) 0
  (UInt32.ofNat (leNat pv)).toInt32

/-- `SparseInt::load_i64`. -/
def loadI64 (buf : List UInt8) : Int64 :=
  let bsize := bufSize (buf.getD 0 0)
  let pv := if bsize < 8 then loadShort 8 buf bsize
    else (List.range 8).map fun i => buf.getD (8 - i) 0
  (UInt64.ofNat (leNat pv)).toInt64

/-! ## The first byte

In the classes one to seven the first byte holds a tag of `k - 1` one bits, a zero bit, and
`8 - k` value bits. The table below is the one place where the masks are evaluated. -/

/-- The value bits and the tag bits of the first byte in each tagged class. -/
def tagOf : Nat → UInt8 × UInt8
  | 1 => (0x7F, 0x00)
  | 2 => (0x3F, 0x80)
  | 3 => (0x1F, 0xC0)
  | 4 => (0x0F, 0xE0)
  | 5 => (0x07, 0xF0)
  | 6 => (0x03, 0xF8)
  | _ => (0x01, 0xFC)

private theorem tag_table : ∀ k : Fin 8, 1 ≤ k.val → ∀ x : Fin 256,
    let t := UInt8.ofNat x &&& (tagOf k).1 ||| (tagOf k).2
    let top := t &&& (0xFF >>> UInt8.ofNat k)
    bufSize t = k ∧ top.toNat = x % 2 ^ (8 - k.val) ∧
    ((top >>> UInt8.ofNat (7 - k)) &&& 0x1 ≠ 0 ↔ 2 ^ (7 - k.val) ≤ x.val % 2 ^ (8 - k.val)) ∧
    (2 ^ (7 - k.val) ≤ x.val % 2 ^ (8 - k.val) →
      (top ||| (0xFF <<< UInt8.ofNat (7 - k))).toNat =
        x % 2 ^ (8 - k.val) + (256 - 2 ^ (8 - k.val))) := by
  decide +kernel

/-- The first byte of class `k` announces `k`, and the decoder recovers its value bits and
    its sign bit. -/
theorem tag_spec (k : Nat) (h1 : 1 ≤ k) (h7 : k ≤ 7) (b : UInt8) :
    let t := b &&& (tagOf k).1 ||| (tagOf k).2
    let top := t &&& (0xFF >>> UInt8.ofNat k)
    bufSize t = k ∧ top.toNat = b.toNat % 2 ^ (8 - k) ∧
    ((top >>> UInt8.ofNat (7 - k)) &&& 0x1 ≠ 0 ↔ 2 ^ (7 - k) ≤ b.toNat % 2 ^ (8 - k)) ∧
    (2 ^ (7 - k) ≤ b.toNat % 2 ^ (8 - k) →
      (top ||| (0xFF <<< UInt8.ofNat (7 - k))).toNat =
        b.toNat % 2 ^ (8 - k) + (256 - 2 ^ (8 - k))) := by
  simpa using tag_table ⟨k, by omega⟩ h1 ⟨b.toNat, b.toNat_lt⟩

theorem bufSize_pos (b : UInt8) : 1 ≤ bufSize b := by
  unfold bufSize
  repeat' split
  all_goals decide

theorem bufSize_le_nine (b : UInt8) : bufSize b ≤ 9 := by
  unfold bufSize
  repeat' split
  all_goals decide

/-! ## Shape of the encoders -/

/-- The bytes of class `k ≤ 7`: the tagged byte `k - 1`, then the lower bytes downwards. -/
def tagged (k u : Nat) : List UInt8 :=
  (pv u (k - 1) &&& (tagOf k).1 ||| (tagOf k).2) :: ((List.range (k - 1)).map (pv u)).reverse

/-- The bytes of the longest classes: a tag byte, then the whole object downwards. -/
def untagged (tag : UInt8) (width u : Nat) : List UInt8 :=
  tag :: ((List.range width).map (pv u)).reverse

@[simp] theorem tagged_length {k : Nat} (u : Nat) (h1 : 1 ≤ k) : (tagged k u).length = k := by
  simp [tagged]
  omega

@[simp] theorem untagged_length (tag : UInt8) (width u : Nat) :
    (untagged tag width u).length = width + 1 := by
  simp [untagged]

/-- The bytes `dump(i64)` reports: what `operator<<(Marshal&, v64)` puts in the Marshal. -/
def encode64 (val : Int64) : List UInt8 := (dump64 val []).2.take (dump64 val []).1

/-- The bytes `dump(i32)` reports: what `operator<<(Marshal&, v32)` puts in the Marshal. -/
def encode32 (val : Int32) : List UInt8 := (dump32 val []).2.take (dump32 val []).1

/-- Two conditionals on one condition report the same bytes when their branches do. -/
private theorem take_ite {c : Prop} [Decidable c] {p q p' q' : Nat × List UInt8}
    (hpos : p.2.take p.1 = p'.2.take p'.1) (hneg : q.2.take q.1 = q'.2.take q'.1) :
    (if c then p else q).2.take (if c then p else q).1 =
      (if c then p' else q').2.take (if c then p' else q').1 := by
  by_cases hc : c
  · simpa only [if_pos hc] using hpos
  · simpa only [if_neg hc] using hneg

/-- The reported bytes do not depend on what the local array held before. -/
theorem take_dump64 (val : Int64) (buf : List UInt8) :
    (dump64 val buf).2.take (dump64 val buf).1 = encode64 val := by
  unfold encode64 dump64 storeAt
  repeat' apply take_ite
  all_goals rfl

theorem take_dump32 (val : Int32) (buf : List UInt8) :
    (dump32 val buf).2.take (dump32 val buf).1 = encode32 val := by
  unfold encode32 dump32 storeAt
  repeat' apply take_ite
  all_goals rfl

/-- The length that `dump(i32)` reports is that of the reported bytes. -/
theorem dump32_fst (val : Int32) (buf : List UInt8) :
    (dump32 val buf).1 = (encode32 val).length := by
  unfold encode32 dump32 storeAt
  split_ifs <;> rfl

/-- A property of two conditionals on one condition. -/
theorem both_ite {c : Prop} [Decidable c] {P : Nat → Nat × List UInt8 → Prop} {m n : Nat}
    {p q : Nat × List UInt8} (hpos : c → P m p) (hneg : ¬ c → P n q) :
    P (if c then m else n) (if c then p else q) := by
  by_cases hc : c
  · simpa only [if_pos hc] using hpos hc
  · simpa only [if_neg hc] using hneg hc

/-- The size `n` and what `dump(i64)` leaves, for a value of one of the length classes. -/
def OfClass64 (val : Int64) (n : Nat) (d : Nat × List UInt8) : Prop :=
  (∃ k, 1 ≤ k ∧ k ≤ 7 ∧ n = k ∧ d.2.take d.1 = tagged k val.toUInt64.toNat ∧
    -2 ^ (7 * k - 1) ≤ val.toInt ∧ val.toInt < 2 ^ (7 * k - 1)) ∨
  (n = 8 ∧ d.2.take d.1 = (untagged 0xFE 8 val.toUInt64.toNat).take 8 ∧
    -2 ^ 55 ≤ val.toInt ∧ val.toInt < 2 ^ 55 ∧
    (val.toInt < -2 ^ 48 ∨ 2 ^ 48 ≤ val.toInt)) ∨
  (n = 9 ∧ d.2.take d.1 = untagged 0xFF 8 val.toUInt64.toNat ∧
    (val.toInt < -2 ^ 55 ∨ 2 ^ 55 ≤ val.toInt))

/-- What is put in the Marshal for a `v64` in each length class, with the range of the class.
    The eight-byte class drops the last byte of its array. -/
theorem encode64_cases (val : Int64) :
    (∃ k, 1 ≤ k ∧ k ≤ 7 ∧ valSize val = k ∧ encode64 val = tagged k val.toUInt64.toNat ∧
      -2 ^ (7 * k - 1) ≤ val.toInt ∧ val.toInt < 2 ^ (7 * k - 1)) ∨
    (valSize val = 8 ∧ encode64 val = (untagged 0xFE 8 val.toUInt64.toNat).take 8 ∧
      -2 ^ 55 ≤ val.toInt ∧ val.toInt < 2 ^ 55 ∧
      (val.toInt < -2 ^ 48 ∨ 2 ^ 48 ≤ val.toInt)) ∨
    (valSize val = 9 ∧ encode64 val = untagged 0xFF 8 val.toUInt64.toNat ∧
      (val.toInt < -2 ^ 55 ∨ 2 ^ 55 ≤ val.toInt)) := by
  change OfClass64 val (valSize val) (dump64 val [])
  unfold valSize dump64
  refine both_ite (fun h => ?_) fun h₁ => both_ite (fun h => ?_) fun h₂ =>
    both_ite (fun h => ?_) fun h₃ => both_ite (fun h => ?_) fun h₄ =>
    both_ite (fun h => ?_) fun h₅ => both_ite (fun h => ?_) fun h₆ =>
    both_ite (fun h => ?_) fun h₇ => both_ite (fun h => ?_) fun h₈ => ?_
  all_goals simp only [Int64.le_iff_toInt_le, Int64.toInt_neg, Int64.reduceToInt, Int.reduceNeg,
    Nat.reducePow, Int.reduceBmod] at *
  · exact .inl ⟨1, by decide, by decide, rfl, by simp [storeAt, tagged, tagOf], by omega, by omega⟩
  · exact .inl ⟨2, by decide, by decide, rfl, rfl, by omega, by omega⟩
  · exact .inl ⟨3, by decide, by decide, rfl, rfl, by omega, by omega⟩
  · exact .inl ⟨4, by decide, by decide, rfl, rfl, by omega, by omega⟩
  · exact .inl ⟨5, by decide, by decide, rfl, rfl, by omega, by omega⟩
  · exact .inl ⟨6, by decide, by decide, rfl, rfl, by omega, by omega⟩
  · exact .inl ⟨7, by decide, by decide, rfl, rfl, by omega, by omega⟩
  · exact .inr (.inl ⟨rfl, rfl, by omega, by omega, by omega⟩)
  · exact .inr (.inr ⟨rfl, rfl, by omega⟩)

/-- The same for `dump(i32)`. -/
def OfClass32 (val : Int32) (n : Nat) (d : Nat × List UInt8) : Prop :=
  (∃ k, 1 ≤ k ∧ k ≤ 4 ∧ n = k ∧ d.2.take d.1 = tagged k val.toUInt32.toNat ∧
    -2 ^ (7 * k - 1) ≤ val.toInt ∧ val.toInt < 2 ^ (7 * k - 1)) ∨
  (n = 5 ∧ d.2.take d.1 = untagged (if val < 0 then 0xF7 else 0xF0) 4 val.toUInt32.toNat)

/-- What is put in the Marshal for a `v32` in each length class, with the range of the class. -/
theorem encode32_cases (val : Int32) :
    (∃ k, 1 ≤ k ∧ k ≤ 4 ∧ valSize val.toInt64 = k ∧ encode32 val = tagged k val.toUInt32.toNat ∧
      -2 ^ (7 * k - 1) ≤ val.toInt ∧ val.toInt < 2 ^ (7 * k - 1)) ∨
    (valSize val.toInt64 = 5 ∧
      encode32 val = untagged (if val < 0 then 0xF7 else 0xF0) 4 val.toUInt32.toNat) := by
  have hlo := val.le_toInt
  have hhi := val.toInt_lt
  change OfClass32 val (valSize val.toInt64) (dump32 val [])
  unfold valSize dump32
  -- the comparisons of both functions become those of the value itself
  simp only [Int64.le_iff_toInt_le, Int32.le_iff_toInt_le, Int32.toInt_toInt64, Int64.toInt_neg,
    Int32.toInt_neg, Int64.reduceToInt, Int32.reduceToInt, Int.reduceNeg, Nat.reducePow,
    Int.reduceBmod]
  refine both_ite (fun h => ?_) fun h₁ => both_ite (fun h => ?_) fun h₂ =>
    both_ite (fun h => ?_) fun h₃ => both_ite (fun h => ?_) fun h₄ => ?_
  · exact .inl ⟨1, by decide, by decide, rfl, by simp [storeAt, tagged, tagOf], by omega, by omega⟩
  · exact .inl ⟨2, by decide, by decide, rfl, rfl, by omega, by omega⟩
  · exact .inl ⟨3, by decide, by decide, rfl, rfl, by omega, by omega⟩
  · exact .inl ⟨4, by decide, by decide, rfl, rfl, by omega, by omega⟩
  · exact .inr ⟨by rw [if_pos (by omega)], rfl⟩

/-! ## Decoding the short classes -/

theorem pv_toNat (u k : Nat) : (pv u k).toNat = u / 256 ^ k % 256 := by simp [pv]

/-- `pv[0], ..., pv[k - 1]` are the `k` low-order bytes. -/
theorem map_pv (u k : Nat) : (List.range k).map (pv u) = leBytes k u := by
  induction k generalizing u with
  | zero => rfl
  | succ k ih =>
    have hstep : pv u ∘ Nat.succ = pv (u / 256) := by
      funext i
      simp only [Function.comp, pv, Nat.succ_eq_add_one, Nat.pow_succ, Nat.mul_comm (256 ^ i) 256,
        ← Nat.div_div_eq_div_mul]
    rw [List.range_succ_eq_map, List.map_cons, List.map_map, leBytes, ← ih, hstep]
    simp [pv]

/-- The copy loop of the decoders turns the bytes behind the first one around. -/
theorem copied_bytes (u k : Nat) (t : UInt8) (junk : List UInt8) :
    (List.range k).map
        (fun i => (t :: ((List.range k).map (pv u)).reverse ++ junk).getD (k + 1 - i - 1) 0) =
      leBytes k u := by
  rw [← map_pv]
  apply List.map_congr_left
  intro i hi
  have hik : i < k := List.mem_range.mp hi
  obtain ⟨j, hj⟩ : ∃ j, k + 1 - i - 1 = j + 1 := ⟨k - i - 1, by omega⟩
  have hlt : j < ((List.range k).map (pv u)).reverse.length := by simp; omega
  rw [hj, List.cons_append, List.getD_cons_succ, List.getD_append _ _ _ _ hlt,
    List.getD_eq_getElem _ _ hlt]
  simp only [List.getElem_reverse, List.getElem_map, List.getElem_range, List.length_map,
    List.length_range]
  congr 1
  omega

private theorem mod_pow_seven (u j : Nat) (hj : j ≤ 6) :
    u % (256 ^ j * 2 ^ (7 - j)) = u % 256 ^ j + 256 ^ j * (u / 256 ^ j % 256 % 2 ^ (7 - j)) := by
  have hdvd : 2 ^ (7 - j) ∣ 256 :=
    Dvd.intro (2 ^ (j + 1)) (by rw [← Nat.pow_add]; interval_cases j <;> rfl)
  rw [Nat.mod_mul, Nat.mod_mod_of_dvd _ hdvd]

/-- `loadShort` on the bytes of class `k` sign-extends the `7 * k` low-order bits. -/
theorem leNat_loadShort_tagged (width k u : Nat) (h1 : 1 ≤ k) (h7 : k ≤ 7) (hw : k ≤ width)
    (junk : List UInt8) :
    leNat (loadShort width (tagged k u ++ junk) k) =
      if 2 ^ (7 * k - 1) ≤ u % 2 ^ (7 * k) then u % 2 ^ (7 * k) + (256 ^ width - 2 ^ (7 * k))
      else u % 2 ^ (7 * k) := by
  obtain ⟨j, rfl⟩ : ∃ j, k = j + 1 := ⟨k - 1, by omega⟩
  obtain ⟨-, htop, hsign, hext⟩ := tag_spec (j + 1) h1 h7 (pv u j)
  -- All powers of two are written over `256 ^ j`, the weight of the first byte.
  have hseven : 2 ^ (7 * (j + 1)) = 256 ^ j * 2 ^ (7 - j) := by
    rw [show (256 : Nat) = 2 ^ 8 by rfl, ← Nat.pow_mul, ← Nat.pow_add]; congr 1; omega
  have hhalf : 2 ^ (7 * (j + 1) - 1) = 256 ^ j * 2 ^ (6 - j) := by
    rw [show (256 : Nat) = 2 ^ 8 by rfl, ← Nat.pow_mul, ← Nat.pow_add]; congr 1; omega
  have hwidth : 256 ^ width = 256 ^ j * 256 * 256 ^ (width - (j + 1)) := by
    rw [← Nat.pow_succ, ← Nat.pow_add]; congr 1; omega
  have hmod := mod_pow_seven u j (by omega)
  have hlow : u % 256 ^ j < 256 ^ j := Nat.mod_lt _ (by positivity)
  simp only [pv_toNat, show 8 - (j + 1) = 7 - j by omega, show 7 - (j + 1) = 6 - j by omega]
    at htop hsign hext
  simp only [loadShort, tagged, Nat.add_sub_cancel]
  rw [copied_bytes, List.cons_append, List.getD_cons_zero, show 7 - (j + 1) = 6 - j by omega,
    hseven, hhalf, hmod]
  simp only [hsign]
  generalize u / 256 ^ j % 256 % 2 ^ (7 - j) = top at *
  have hle : 256 ^ j * 2 ^ (6 - j) ≤ u % 256 ^ j + 256 ^ j * top ↔ 2 ^ (6 - j) ≤ top := by
    constructor
    · intro h
      by_contra htop_lt
      have hmul : 256 ^ j * (top + 1) ≤ 256 ^ j * 2 ^ (6 - j) := Nat.mul_le_mul_left _ (by omega)
      rw [Nat.mul_add] at hmul
      omega
    · intro h
      have hmul : 256 ^ j * 2 ^ (6 - j) ≤ 256 ^ j * top := Nat.mul_le_mul_left _ h
      omega
  simp only [hle]
  by_cases hs : 2 ^ (6 - j) ≤ top
  · -- Negative: the sign bits above are all ones.
    rw [if_pos hs, if_pos hs, leNat_append, leNat, leNat_leBytes, leBytes_length, hext hs,
      leNat_replicate_ff, hwidth]
    have hT : 2 ^ (7 - j) ≤ 256 := Nat.pow_le_pow_right (by decide : 0 < 2) (by omega : 7 - j ≤ 8)
    have hW : 1 ≤ 256 ^ (width - (j + 1)) := Nat.one_le_pow _ _ (by decide)
    generalize 256 ^ (width - (j + 1)) = W at *
    generalize 2 ^ (7 - j) = T at *
    obtain ⟨w, rfl⟩ : ∃ w, W = w + 1 := ⟨W - 1, by omega⟩
    obtain ⟨d, hd⟩ : ∃ d, 256 = T + d := ⟨256 - T, by omega⟩
    have hsub : 256 ^ j * 256 * (w + 1) - 256 ^ j * T = 256 ^ j * (256 * w + d) := by
      rw [Nat.mul_assoc, ← Nat.mul_sub]; congr 1; omega
    rw [hsub, show 256 - T = d by omega, Nat.add_sub_cancel]
    ring
  · -- Not negative: the bits above are zeros.
    rw [if_neg hs, if_neg hs, leNat_append, leNat, leNat_leBytes, leBytes_length, htop,
      leNat_replicate_zero]
    rfl

/-! ## Round trips -/

theorem toNat_toUInt64 (v : Int64) : (v.toUInt64.toNat : Int) = v.toInt % 2 ^ 64 := by
  have hbmod := v.toBitVec.toInt_eq_toNat_bmod
  have hint : v.toInt = v.toBitVec.toInt := rfl
  have hnat : v.toUInt64.toNat = v.toBitVec.toNat := rfl
  have hlt := v.toBitVec.isLt
  rw [hint, hbmod, hnat]
  simp only [Int.bmod]
  omega

theorem toNat_toUInt32 (v : Int32) : (v.toUInt32.toNat : Int) = v.toInt % 2 ^ 32 := by
  have hbmod := v.toBitVec.toInt_eq_toNat_bmod
  have hint : v.toInt = v.toBitVec.toInt := rfl
  have hnat : v.toUInt32.toNat = v.toBitVec.toNat := rfl
  have hlt := v.toBitVec.isLt
  rw [hint, hbmod, hnat]
  simp only [Int.bmod]
  omega

/-! ### The length functions agree -/

theorem encode64_length (val : Int64) : (encode64 val).length = valSize val := by
  rcases encode64_cases val with ⟨k, h1, -, hk, he, -⟩ | ⟨hk, he, -⟩ | ⟨hk, he, -⟩
  · rw [he, hk, tagged_length _ h1]
  · rw [he, hk, List.length_take, untagged_length]
    rfl
  · rw [he, hk, untagged_length]

theorem encode32_length (val : Int32) : (encode32 val).length = valSize val.toInt64 := by
  rcases encode32_cases val with ⟨k, h1, -, hk, he, -⟩ | ⟨hk, he⟩
  · rw [he, hk, tagged_length _ h1]
  · rw [he, hk, untagged_length]

/-- The first byte put in the Marshal announces the length of the code. -/
theorem bufSize_encode64 (val : Int64) (rest : List UInt8) :
    bufSize ((encode64 val ++ rest).getD 0 0) = valSize val := by
  rcases encode64_cases val with ⟨k, h1, h7, hk, he, -⟩ | ⟨hk, he, -⟩ | ⟨hk, he, -⟩
  · rw [he, hk]
    exact (tag_spec k h1 h7 _).1
  · rw [he, hk]
    exact (by decide : bufSize 0xFE = 8)
  · rw [he, hk]
    exact (by decide : bufSize 0xFF = 9)

theorem valSize_pos (val : Int64) : 1 ≤ valSize val := by
  rw [← bufSize_encode64 val []]
  exact bufSize_pos _

/-- Values of less than 49 bits are not in the 8-byte class. -/
theorem valSize_ne_eight {val : Int64} (hlo : -2 ^ 48 ≤ val.toInt) (hhi : val.toInt < 2 ^ 48) :
    valSize val ≠ 8 := by
  rcases encode64_cases val with ⟨k, -, h7, hk, -⟩ | ⟨-, -, -, -, hnot⟩ | ⟨hk, -⟩
  · omega
  · omega
  · omega

theorem bufSize_encode32 (val : Int32) (rest : List UInt8) :
    bufSize ((encode32 val ++ rest).getD 0 0) = valSize val.toInt64 := by
  rcases encode32_cases val with ⟨k, h1, h4, hk, he, -⟩ | ⟨hk, he⟩
  · rw [he, hk]
    exact (tag_spec k h1 (by omega) _).1
  · rw [he, hk]
    by_cases hneg : val < 0
    · rw [if_pos hneg]
      exact (by decide : bufSize 0xF7 = 5)
    · rw [if_neg hneg]
      exact (by decide : bufSize 0xF0 = 5)

/-! ### Decoding what was put in the Marshal -/

/-- The long branch of the decoders turns the bytes behind the tag byte around. -/
theorem copied_untagged (tag : UInt8) (width u : Nat) (junk : List UInt8) :
    (List.range width).map (fun i => (untagged tag width u ++ junk).getD (width - i) 0) =
      leBytes width u := by
  rw [← copied_bytes u width tag junk]
  apply List.map_congr_left
  intro i hi
  have hi' : i < width := List.mem_range.mp hi
  rw [untagged, show width + 1 - i - 1 = width - i by omega]

private theorem int64_of_leNat {bs : List UInt8} {val : Int64}
    (h : leNat bs = val.toUInt64.toNat) : (UInt64.ofNat (leNat bs)).toInt64 = val := by
  rw [h, UInt64.ofNat_toNat]
  rfl

private theorem int32_of_leNat {bs : List UInt8} {val : Int32}
    (h : leNat bs = val.toUInt32.toNat) : (UInt32.ofNat (leNat bs)).toInt32 = val := by
  rw [h, UInt32.ofNat_toNat]
  rfl

/-- Outside the eight-byte class `load_i64` gives the value back, whatever the local array
    held before. -/
theorem loadI64_encode64 (val : Int64) (h8 : valSize val ≠ 8) (buf : List UInt8) :
    loadI64 (storeAt buf (encode64 val)) = val := by
  have hu := toNat_toUInt64 val
  have hsize := bufSize_encode64 val (buf.drop (encode64 val).length)
  unfold loadI64
  simp only [storeAt, hsize]
  apply int64_of_leNat
  rcases encode64_cases val with ⟨k, h1, h7, hk, he, hlo, hhi⟩ | ⟨hk, -⟩ | ⟨hk, he, -⟩
  · rw [if_pos (by omega), hk, he, leNat_loadShort_tagged 8 k _ h1 h7 (by omega)]
    interval_cases k <;> (split <;> omega)
  · exact absurd hk h8
  · rw [if_neg (by omega), he, copied_untagged, leNat_leBytes_of_lt]
    exact val.toUInt64.toNat_lt

/-- The eight-byte class: the byte behind the eight reported ones takes the place of the
    low-order byte of the value. -/
theorem encode64_eight_append (val : Int64) (h8 : valSize val = 8) (b : UInt8)
    (rest : List UInt8) :
    encode64 val ++ b :: rest =
      untagged 0xFE 8 (256 * (val.toUInt64.toNat / 256) + b.toNat) ++ rest := by
  have he : encode64 val = (untagged 0xFE 8 val.toUInt64.toNat).take 8 := by
    rcases encode64_cases val with ⟨k, -, h7, hk, -⟩ | ⟨-, he, -⟩ | ⟨hk, -⟩
    · omega
    · exact he
    · omega
  have hb : b.toNat < 256 := b.toNat_lt
  have hlow : pv (256 * (val.toUInt64.toNat / 256) + b.toNat) 0 = b := by
    apply UInt8.toNat_inj.mp
    rw [pv_toNat]
    omega
  have hhigh : ∀ k, pv (256 * (val.toUInt64.toNat / 256) + b.toNat) (k + 1) =
      pv val.toUInt64.toNat (k + 1) := by
    intro k
    rw [pv, pv, Nat.pow_succ', ← Nat.div_div_eq_div_mul, ← Nat.div_div_eq_div_mul]
    congr 2
    omega
  -- The eight bytes on both sides, each beside its copy.
  rw [he, untagged, untagged, List.range_succ_eq_map, List.map_cons, List.map_cons, List.map_map,
    List.map_map, hlow]
  simp only [Function.comp_def, Nat.succ_eq_add_one, hhigh]
  rfl

/-- In the eight-byte class `load_i64` takes the low-order byte from the last cell of its
    local array, which no read has filled. -/
theorem loadI64_encode64_eight (val : Int64) (h8 : valSize val = 8) (buf : List UInt8)
    (hbuf : buf.length = 9) :
    (loadI64 (storeAt buf (encode64 val))).toUInt64.toNat =
      256 * (val.toUInt64.toNat / 256) + (buf.getD 8 0).toNat := by
  have hlt : val.toUInt64.toNat < 2 ^ 64 := val.toUInt64.toNat_lt
  have hb : (buf.getD 8 0).toNat < 256 := (buf.getD 8 0).toNat_lt
  have hdrop : buf.drop (encode64 val).length = [buf.getD 8 0] := by
    rw [encode64_length, h8, List.drop_eq_getElem_cons (by omega), List.drop_eq_nil_of_le (by omega),
      List.getD_eq_getElem _ _ (by omega)]
  have hsize := bufSize_encode64 val (buf.drop (encode64 val).length)
  unfold loadI64
  simp only [storeAt, hsize]
  rw [if_neg (by omega), hdrop, encode64_eight_append val h8, copied_untagged]
  show (UInt64.ofNat _).toNat = _
  rw [leNat_leBytes_of_lt (by omega), UInt64.toNat_ofNat']
  omega

/-! ### What the decoders look at -/

/-- The short branch looks at the `k` bytes that the first one announces. -/
theorem loadShort_append (width k : Nat) (xs junk : List UInt8) (h1 : 1 ≤ k)
    (hk : k ≤ xs.length) : loadShort width (xs ++ junk) k = loadShort width xs k := by
  have hget : ∀ i < xs.length, (xs ++ junk).getD i 0 = xs.getD i 0 := fun i hi =>
    List.getD_append _ _ _ _ hi
  have hlow : (List.range (k - 1)).map (fun i => (xs ++ junk).getD (k - i - 1) 0) =
      (List.range (k - 1)).map (fun i => xs.getD (k - i - 1) 0) := by
    apply List.map_congr_left
    intro i _
    exact hget _ (by omega)
  unfold loadShort
  simp only [hget 0 (by omega), hlow]

/-- The long branch looks at the `n` bytes behind the first one. -/
theorem long_append (n : Nat) (xs junk : List UInt8) (hn : n < xs.length) :
    (List.range n).map (fun i => (xs ++ junk).getD (n - i) 0) =
      (List.range n).map (fun i => xs.getD (n - i) 0) := by
  apply List.map_congr_left
  intro i _
  exact List.getD_append _ _ _ _ (by omega)

/-- `load_i32` looks at no more than the first byte announces. -/
theorem loadI32_append (xs junk : List UInt8) (hlen : bufSize (xs.getD 0 0) ≤ xs.length) :
    loadI32 (xs ++ junk) = loadI32 xs := by
  have hpos := bufSize_pos (xs.getD 0 0)
  unfold loadI32
  simp only [List.getD_append _ _ _ _ (show 0 < xs.length by omega)]
  by_cases h5 : bufSize (xs.getD 0 0) < 5
  · rw [if_pos h5, if_pos h5, loadShort_append 4 _ xs junk hpos hlen]
  · rw [if_neg h5, if_neg h5, long_append 4 xs junk (by omega)]

/-- `load_i64` looks at no more than the first byte announces, unless it announces eight. -/
theorem loadI64_append (xs junk : List UInt8) (h8 : bufSize (xs.getD 0 0) ≠ 8)
    (hlen : bufSize (xs.getD 0 0) ≤ xs.length) : loadI64 (xs ++ junk) = loadI64 xs := by
  have hpos := bufSize_pos (xs.getD 0 0)
  unfold loadI64
  simp only [List.getD_append _ _ _ _ (show 0 < xs.length by omega)]
  by_cases h7 : bufSize (xs.getD 0 0) < 8
  · rw [if_pos h7, if_pos h7, loadShort_append 8 _ xs junk hpos hlen]
  · rw [if_neg h7, if_neg h7, long_append 8 xs junk (by omega)]

/-- In the tagged classes `load_i64` reads only what the first byte announces. -/
theorem loadI64_storeAt (xs buf : List UInt8) (h7 : bufSize (xs.getD 0 0) ≤ 7)
    (hlen : bufSize (xs.getD 0 0) ≤ xs.length) : loadI64 (storeAt buf xs) = loadI64 xs :=
  loadI64_append xs _ (by omega) hlen

/-- `load_i32` gives the value back, whatever the local array held before. -/
theorem loadI32_encode32 (val : Int32) (buf : List UInt8) :
    loadI32 (storeAt buf (encode32 val)) = val := by
  have hu := toNat_toUInt32 val
  have hsize := bufSize_encode32 val (buf.drop (encode32 val).length)
  unfold loadI32
  simp only [storeAt, hsize]
  apply int32_of_leNat
  rcases encode32_cases val with ⟨k, h1, h4, hk, he, hlo, hhi⟩ | ⟨hk, he⟩
  · rw [if_pos (by omega), hk, he, leNat_loadShort_tagged 4 k _ h1 (by omega) h4]
    interval_cases k <;> (split <;> omega)
  · rw [if_neg (by omega), he, copied_untagged, leNat_leBytes_of_lt]
    exact val.toUInt32.toNat_lt

/-! ## One code for both widths -/

/-- Sign extension keeps the four low-order bytes. -/
theorem pv_toInt64 (val : Int32) {k : Nat} (hk : k < 4) :
    pv val.toInt64.toUInt64.toNat k = pv val.toUInt32.toNat k := by
  have h64 := toNat_toUInt64 val.toInt64
  have h32 := toNat_toUInt32 val
  rw [Int32.toInt_toInt64] at h64
  apply UInt8.toNat_inj.mp
  rw [pv_toNat, pv_toNat]
  interval_cases k <;> omega

/-- Sign extension fills the fifth byte with the sign; behind the tag of its class this is the
    constant that `dump(i32)` writes there. -/
theorem pv_toInt64_four (val : Int32) :
    pv val.toInt64.toUInt64.toNat 4 &&& 0x07 ||| 0xF0 = if val < 0 then 0xF7 else 0xF0 := by
  have h64 := toNat_toUInt64 val.toInt64
  have hlo := val.le_toInt
  have hhi := val.toInt_lt
  rw [Int32.toInt_toInt64] at h64
  by_cases hneg : val < 0
  · have hval : val.toInt < 0 := by simpa [Int32.lt_iff_toInt_lt] using hneg
    -- all bits above the fourth byte are ones
    have hff : pv val.toInt64.toUInt64.toNat 4 = 0xFF := by
      apply UInt8.toNat_inj.mp
      rw [pv_toNat]
      show _ = 255
      omega
    rw [if_pos hneg, hff]
    rfl
  · have hval : ¬ val.toInt < 0 := by simpa [Int32.lt_iff_toInt_lt] using hneg
    -- all of them are zeros
    have hzero : pv val.toInt64.toUInt64.toNat 4 = 0 := by
      apply UInt8.toNat_inj.mp
      rw [pv_toNat]
      show _ = 0
      omega
    rw [if_neg hneg, hzero]
    rfl

/-- **One code for both widths**: `dump(i32)` and `dump(i64)` of the sign-extended value leave
    the same array behind and report the same length. -/
theorem dump64_toInt64 (val : Int32) (buf : List UInt8) :
    dump64 val.toInt64 buf = dump32 val buf := by
  have hlo := val.le_toInt
  have hhi := val.toInt_lt
  unfold dump64 dump32
  simp only [Int64.le_iff_toInt_le, Int32.le_iff_toInt_le, Int32.toInt_toInt64, Int64.toInt_neg,
    Int32.toInt_neg, Int64.reduceToInt, Int32.reduceToInt, Int.reduceNeg, Nat.reducePow,
    Int.reduceBmod, pv_toInt64 val (by decide : 0 < 4), pv_toInt64 val (by decide : 1 < 4),
    pv_toInt64 val (by decide : 2 < 4), pv_toInt64 val (by decide : 3 < 4), pv_toInt64_four]
  -- every 32-bit value is in the first five classes
  rw [if_pos (by omega : -17179869184 ≤ val.toInt ∧ val.toInt ≤ 17179869183)]

theorem encode64_toInt64 (val : Int32) : encode64 val.toInt64 = encode32 val := by
  rw [encode64, encode32, dump64_toInt64]

end SparseInt

end SimpleRpc.Base
