import SimpleRpc.Rpc.Operators

/-!
# The Varint Operators on Arbitrary Bytes (`rpc/marshal.h`, `base/basetypes.cc`)

`operator>>` takes the length of a `v32` or a `v64` from the first byte of the input, copies that
many bytes into a local array and lets `load_i32` or `load_i64` look at the array. Here the array
is kept as the part of it that was written, and every access to it is checked.

## Layers

- **Checked code**: `SparseInt.loadI32From`, `SparseInt.loadI64From` and `getSparseFrom`
- **Connection**: `getV32_of_from`, `getV64_of_from`: where every check passes, the operators
  return the same, whatever their arrays held

## Main results

- `varints_in_buffers_iff`: the first bytes on which the operators stay inside of their arrays
- `v32_v64_one_code`: on the 32-bit values the two operators are one decoder
-/

namespace SimpleRpc.Base

open SimpleRpc.Lib

namespace SparseInt

/-! ## Local arrays -/

/-- An access outside of what the function has written. -/
inductive Stray where
  /-- `count` bytes are copied into `char buf[size]` -/
  | overrun (count size : Nat)
  /-- `buf[index]` is looked at before anything was copied there -/
  | unwritten (index : Nat)
  deriving DecidableEq

/-- `m.read(buf, n)`: the bytes go to the front of `char buf[size]`. -/
def copyTo (size : Nat) (bytes : List UInt8) : Except Stray (List UInt8) :=
  if bytes.length ≤ size then .ok bytes else .error (.overrun bytes.length size)

/-- `buf[i]`, of an array whose front `written` was copied -/
def cellOf (written : List UInt8) (i : Nat) : Except Stray UInt8 :=
  if i < written.length then .ok (written.getD i 0) else .error (.unwritten i)

/-- The shared body of the decoders for the short classes. -/
def loadShortFrom (width : Nat) (written : List UInt8) (bsize : Nat) :
    Except Stray (List UInt8) := do
  let low ← (List.range (bsize - 1)).mapM fun i => cellOf written (bsize - i - 1)
  let byte0 ← cellOf written 0
  let top := byte0 &&& (0xFF >>> UInt8.ofNat bsize)
  if (top >>> UInt8.ofNat (7 - bsize)) &&& 0x1 ≠ 0 then
    pure (low ++ (top ||| (0xFF <<< UInt8.ofNat (7 - bsize))) ::
      List.replicate (width - bsize) 0xFF)
  else
    pure (low ++ top :: List.replicate (width - bsize) 0)

/-- `SparseInt::load_i32` -/
def loadI32From (written : List UInt8) : Except Stray Int32 := do
  let byte0 ← cellOf written 0
  let bsize := bufSize byte0
  let pv ← if bsize < 5 then loadShortFrom 4 written bsize
    else (List.range 4).mapM fun i => cellOf written (4 - i)
  pure (UInt32.ofNat (leNat pv)).toInt32

/-- `SparseInt::load_i64` -/
def loadI64From (written : List UInt8) : Except Stray Int64 := do
  let byte0 ← cellOf written 0
  let bsize := bufSize byte0
  let pv ← if bsize < 8 then loadShortFrom 8 written bsize
    else (List.range 8).mapM fun i => cellOf written (8 - i)
  pure (UInt64.ofNat (leNat pv)).toInt64

private theorem ok_then {ε α β : Type} (a : α) (f : α → Except ε β) :
    (Except.ok a >>= f) = f a := rfl

theorem cellOf_of_lt {written : List UInt8} {i : Nat} (h : i < written.length) :
    cellOf written i = .ok (written.getD i 0) := if_pos h

/-- A loop over written cells meets no other one. -/
theorem mapM_cellOf (written : List UInt8) (f : Nat → Nat) (is : List Nat)
    (h : ∀ i ∈ is, f i < written.length) :
    is.mapM (fun i => cellOf written (f i)) = .ok (is.map fun i => written.getD (f i) 0) := by
  induction is with
  | nil => rfl
  | cons i is ih =>
    rw [List.mapM_cons, cellOf_of_lt (h i (by simp)), ih fun j hj => h j (by simp [hj])]
    rfl

theorem loadShortFrom_of_le (width : Nat) {written : List UInt8} {k : Nat} (h1 : 1 ≤ k)
    (hk : k ≤ written.length) :
    loadShortFrom width written k = .ok (loadShort width written k) := by
  have hlow := mapM_cellOf written (fun i => k - i - 1) (List.range (k - 1)) fun i _ => by omega
  unfold loadShortFrom loadShort
  simp only [hlow, cellOf_of_lt (show 0 < written.length by omega), ok_then]
  split
  · rfl
  · rfl

/-- `load_i32` looks at the copied bytes only. -/
theorem loadI32From_of_le {written : List UInt8}
    (hlen : bufSize (written.getD 0 0) ≤ written.length) :
    loadI32From written = .ok (loadI32 written) := by
  have hpos := bufSize_pos (written.getD 0 0)
  unfold loadI32From loadI32
  simp only [cellOf_of_lt (show 0 < written.length by omega), ok_then]
  by_cases h5 : bufSize (written.getD 0 0) < 5
  · simp only [if_pos h5, loadShortFrom_of_le 4 hpos hlen, ok_then]
    rfl
  · have hlong := mapM_cellOf written (fun i => 4 - i) (List.range 4) fun i _ => by omega
    simp only [if_neg h5, hlong, ok_then]
    rfl

/-- `load_i64` looks at the copied bytes only, unless there are eight of them. -/
theorem loadI64From_of_le {written : List UInt8} (h8 : bufSize (written.getD 0 0) ≠ 8)
    (hlen : bufSize (written.getD 0 0) ≤ written.length) :
    loadI64From written = .ok (loadI64 written) := by
  have hpos := bufSize_pos (written.getD 0 0)
  unfold loadI64From loadI64
  simp only [cellOf_of_lt (show 0 < written.length by omega), ok_then]
  by_cases h7 : bufSize (written.getD 0 0) < 8
  · simp only [if_pos h7, loadShortFrom_of_le 8 hpos hlen, ok_then]
    rfl
  · have hlong := mapM_cellOf written (fun i => 8 - i) (List.range 8) fun i _ => by omega
    simp only [if_neg h7, hlong, ok_then]
    rfl

/-- Of eight copied bytes `load_i64` wants the ninth first. -/
theorem loadI64From_eight {written : List UInt8} (h8 : bufSize (written.getD 0 0) = 8)
    (hlen : written.length = 8) : loadI64From written = .error (.unwritten 8) := by
  have hninth : cellOf written 8 = .error (.unwritten 8) := if_neg (by omega)
  unfold loadI64From
  simp only [cellOf_of_lt (show 0 < written.length by omega), ok_then, h8]
  rw [if_neg (by decide), List.range_succ_eq_map, List.mapM_cons, hninth]
  rfl

/-- The first bytes that announce more than `char buf[5]` holds. -/
theorem bufSize_le_five_iff (b : UInt8) : bufSize b ≤ 5 ↔ b < 0xF8 := by
  have htable : ∀ x : Fin 256, bufSize (UInt8.ofNat x) ≤ 5 ↔ UInt8.ofNat x < 0xF8 := by
    decide +kernel
  simpa using htable ⟨b.toNat, b.toNat_lt⟩

/-- The first byte of the class in which one byte is missing. -/
theorem bufSize_eq_eight_iff (b : UInt8) : bufSize b = 8 ↔ b = 0xFE := by
  have htable : ∀ x : Fin 256, bufSize (UInt8.ofNat x) = 8 ↔ UInt8.ofNat x = 0xFE := by
    decide +kernel
  simpa using htable ⟨b.toNat, b.toNat_lt⟩

end SparseInt

end SimpleRpc.Base

namespace SimpleRpc.Rpc

open SimpleRpc.Lib SimpleRpc.Base

/-! ## The operators with checked arrays -/

/-- How an operator can fail. -/
inductive DecodeError where
  | fault (e : Fault)
  | stray (s : SparseInt.Stray)
  deriving DecidableEq

/-- The shared body of `operator>>(Marshal&, v32&)` and `operator>>(Marshal&, v64&)`, with
    `char buf[size]`. The bytes are in `buf` before `verify` counts them. -/
def getSparseFrom {α : Type} (size : Nat) (load : List UInt8 → Except SparseInt.Stray α)
    (s : Heap × Marshal) : Except DecodeError (α × Heap × Marshal) := do
  let (byte0, h, m) ← (MarshalM.peek 1 s).mapError .fault
  let bsize := SparseInt.bufSize (byte0.getD 0 0)
  let (m, bytes) ← (m.read h bsize).mapError .fault
  let buf ← (SparseInt.copyTo size bytes).mapError .stray
  (verify (bytes.length = bsize)).mapError .fault
  let val ← (load buf).mapError .stray
  pure (val, h, m)

/-- `operator>>(Marshal&, v32&)` -/
def getV32From : Heap × Marshal → Except DecodeError (Int32 × Heap × Marshal) :=
  getSparseFrom 5 SparseInt.loadI32From

/-- `operator>>(Marshal&, v64&)` -/
def getV64From : Heap × Marshal → Except DecodeError (Int64 × Heap × Marshal) :=
  getSparseFrom 9 SparseInt.loadI64From

variable {α : Type} {size : Nat} {load : List UInt8 → Except SparseInt.Stray α}

/-- From nothing the operators read nothing: `verify` ends the process. -/
theorem getSparseFrom_nil {h : Heap} {m : Marshal} (hm : m.Ok h) (hnil : m.content h = []) :
    getSparseFrom size load (h, m) = .error (.fault .verifyFailed) := by
  have hpeek : m.peek h 1 = [] := by rw [Marshal.peek_spec hm, hnil, List.take_nil]
  unfold getSparseFrom MarshalM.peek
  simp only [hpeek]
  rfl

/-- What an operator does in front of a byte. -/
theorem getSparseFrom_cons (size : Nat) (load : List UInt8 → Except SparseInt.Stray α) {h : Heap}
    {m : Marshal} {b : UInt8} {rest : List UInt8} (hm : m.Ok h) (hcontent : m.content h = b :: rest) :
    ∃ m', m.read h (SparseInt.bufSize b) = .ok (m', (b :: rest).take (SparseInt.bufSize b)) ∧
      getSparseFrom size load (h, m) = (do
        let buf ← (SparseInt.copyTo size ((b :: rest).take (SparseInt.bufSize b))).mapError .stray
        (verify (((b :: rest).take (SparseInt.bufSize b)).length = SparseInt.bufSize b)).mapError
          .fault
        let val ← (load buf).mapError .stray
        pure (val, h, m')) := by
  obtain ⟨m', hread, -, -⟩ := Marshal.read_spec hm (SparseInt.bufSize b)
  have hpeek : m.peek h 1 = [b] := by
    rw [Marshal.peek_spec hm, hcontent]
    rfl
  rw [hcontent] at hread
  refine ⟨m', hread, ?_⟩
  unfold getSparseFrom MarshalM.peek
  simp only [hpeek]
  show ((m.read h (SparseInt.bufSize b)).mapError DecodeError.fault >>= _) = _
  rw [hread]
  rfl

/-- An operator strays if it copies too much, or if it has all bytes and looks at others. -/
theorem getSparseFrom_stray_iff {h : Heap} {m : Marshal} (hm : m.Ok h) :
    (∃ s, getSparseFrom size load (h, m) = .error (.stray s)) ↔
      let written := (m.content h).take (SparseInt.bufSize ((m.content h).getD 0 0))
      m.content h ≠ [] ∧ (size < written.length ∨
        (SparseInt.bufSize ((m.content h).getD 0 0) ≤ (m.content h).length ∧
          ∃ s, load written = .error s)) := by
  cases hcontent : m.content h with
  | nil =>
    -- no first byte: `verify` comes first
    rw [getSparseFrom_nil hm hcontent]
    simp
  | cons b rest =>
    obtain ⟨m', -, heq⟩ := getSparseFrom_cons size load hm hcontent
    rw [heq]
    simp only [List.getD_cons_zero, List.length_take]
    generalize hw : (b :: rest).take (SparseInt.bufSize b) = written
    have hlen : written.length = min (SparseInt.bufSize b) (rest.length + 1) := by
      rw [← hw, List.length_take, List.length_cons]
    rw [List.length_cons, ← hlen]
    by_cases hsize : written.length ≤ size
    · rw [SparseInt.copyTo, if_pos hsize]
      by_cases hall : SparseInt.bufSize b ≤ rest.length + 1
      · -- all bytes are there, so the outcome is that of the loader
        rw [verify_of (by omega)]
        cases hload : load written with
        | ok v => simp [Except.mapError, bind, Except.bind, pure, Except.pure, hload, hsize]
        | error s => simp [Except.mapError, bind, Except.bind, hload, hall]
      · -- too few bytes: `verify` ends the process before the loader runs
        rw [verify, if_neg (by omega)]
        simp [Except.mapError, bind, Except.bind, hsize, hall]
    · -- the bytes do not fit into the array
      rw [SparseInt.copyTo, if_neg hsize]
      simp [Except.mapError, bind, Except.bind, Nat.lt_of_not_le hsize]

/-- Any bytes can be the content of a Marshal. -/
theorem exists_content (content : List UInt8) :
    ∃ (h : Heap) (m : Marshal), m.Ok h ∧ m.content h = content := by
  obtain ⟨h, m, new, -, happ, -⟩ := Marshal.write_spec (Marshal.ok_empty .empty) content
  refine ⟨h, m, happ.ok, ?_⟩
  rw [happ.content_eq (Marshal.ok_empty _) (List.disjoint_nil_left _)]
  rfl

/-- In front of `content` the operator keeps to what it has copied. -/
def StaysInBuffers (get : Heap × Marshal → Except DecodeError (α × Heap × Marshal))
    (content : List UInt8) : Prop :=
  ∀ h m, m.Ok h → m.content h = content → ∀ s, get (h, m) ≠ .error (.stray s)

theorem staysInBuffers_iff (content : List UInt8) :
    StaysInBuffers (getSparseFrom size load) content ↔
      let written := content.take (SparseInt.bufSize (content.getD 0 0))
      content ≠ [] → written.length ≤ size ∧
        (SparseInt.bufSize (content.getD 0 0) ≤ content.length → ∀ s, load written ≠ .error s) := by
  constructor
  · intro hstays written hne
    obtain ⟨h, m, hm, hcontent⟩ := exists_content content
    have hnot : ¬ ∃ s, getSparseFrom size load (h, m) = .error (.stray s) := fun ⟨s, hs⟩ =>
      hstays h m hm hcontent s hs
    rw [getSparseFrom_stray_iff hm, hcontent] at hnot
    refine ⟨?_, fun hall s hs => ?_⟩
    · by_contra hover
      exact hnot ⟨hne, .inl (Nat.lt_of_not_le hover)⟩
    · exact hnot ⟨hne, .inr ⟨hall, s, hs⟩⟩
  · intro hgood h m hm hcontent s hs
    obtain ⟨hne, hbad⟩ := (getSparseFrom_stray_iff hm).mp ⟨s, hs⟩
    rw [hcontent] at hne hbad
    obtain ⟨hsize, hload⟩ := hgood hne
    rcases hbad with hover | ⟨hall, s', hs'⟩
    · omega
    · exact hload hall s' hs'

/-- What the operator makes of `content` is the same wherever the content lies and whatever the
    local array held. -/
def ContentDetermines (get : List UInt8 → MarshalM α) (content : List UInt8) : Prop :=
  ∃ r : Except Fault α, ∀ h m, m.Ok h → m.content h = content → ∀ buf,
    (get buf (h, m)).map Prod.fst = r

/-- The operators end by `verify`, or in what the loader makes of the announced bytes. -/
private theorem map_sparse (load : List UInt8 → α) {h : Heap} {m : Marshal} (hm : m.Ok h) :
    ((do let byte0 ← MarshalM.peek 1
         let bytes ← MarshalM.read (SparseInt.bufSize (byte0.getD 0 0))
         pure (load bytes) : MarshalM α) (h, m)).map Prod.fst =
      if SparseInt.bufSize ((m.content h).getD 0 0) ≤ (m.content h).length then
        .ok (load ((m.content h).take (SparseInt.bufSize ((m.content h).getD 0 0))))
      else .error .verifyFailed := by
  change ((MarshalM.peek 1 (h, m) >>= fun r => _ : Except Fault _)).map _ = _
  cases hcontent : m.content h with
  | nil =>
    -- `peek` delivers no byte
    have hpeek : m.peek h 1 = [] := by rw [Marshal.peek_spec hm, hcontent, List.take_nil]
    rw [MarshalM.peek, hpeek, if_neg (by decide)]
    rfl
  | cons b rest =>
    -- the first byte tells how many are read
    have hpeek : m.peek h 1 = [b] := by
      rw [Marshal.peek_spec hm, hcontent]
      rfl
    obtain ⟨m', hread, -, -⟩ := Marshal.read_spec hm (SparseInt.bufSize b)
    rw [hcontent] at hread
    rw [MarshalM.peek, hpeek, List.getD_cons_zero]
    change ((MarshalM.read (SparseInt.bufSize b) (h, m) >>= fun r => _ : Except Fault _)).map _ = _
    rw [MarshalM.read, hread]
    -- all of them are there
    by_cases hall : SparseInt.bufSize b ≤ (b :: rest).length
    · have hverify : verify (((b :: rest).take (SparseInt.bufSize b)).length =
          SparseInt.bufSize b) = .ok () := verify_of (by rw [List.length_take]; omega)
      simp only [ok_bind, hverify, if_pos hall]
      rfl
    · -- some are missing
      have hverify : verify (((b :: rest).take (SparseInt.bufSize b)).length =
          SparseInt.bufSize b) = .error .verifyFailed :=
        if_neg (by rw [List.length_take]; omega)
      simp only [ok_bind, hverify, if_neg hall]
      rfl

/-- If the loader does not look behind the announced bytes, the content determines the value. -/
private theorem contentDetermines_of {load : List UInt8 → α} {content : List UInt8}
    (hload : SparseInt.bufSize (content.getD 0 0) ≤ content.length → ∀ junk,
      load (content.take (SparseInt.bufSize (content.getD 0 0)) ++ junk) =
        load (content.take (SparseInt.bufSize (content.getD 0 0)))) :
    ContentDetermines (fun buf => do
      let byte0 ← MarshalM.peek 1
      let bytes ← MarshalM.read (SparseInt.bufSize (byte0.getD 0 0))
      pure (load (SparseInt.storeAt buf bytes))) content := by
  refine ⟨if SparseInt.bufSize (content.getD 0 0) ≤ content.length then
      .ok (load (content.take (SparseInt.bufSize (content.getD 0 0))))
    else .error .verifyFailed, fun h m hm hcontent buf => ?_⟩
  rw [map_sparse (fun bytes => load (SparseInt.storeAt buf bytes)) hm, hcontent]
  by_cases hall : SparseInt.bufSize (content.getD 0 0) ≤ content.length
  · rw [if_pos hall, if_pos hall, SparseInt.storeAt, hload hall]
  · rw [if_neg hall, if_neg hall]

/-- The announced bytes begin with the byte that announces them. -/
private theorem getD_take_bufSize (content : List UInt8) :
    (content.take (SparseInt.bufSize (content.getD 0 0))).getD 0 0 = content.getD 0 0 := by
  cases content with
  | nil => rfl
  | cons b rest =>
    obtain ⟨k, hk⟩ : ∃ k, SparseInt.bufSize b = k + 1 :=
      ⟨SparseInt.bufSize b - 1, by have := SparseInt.bufSize_pos b; omega⟩
    rw [List.getD_cons_zero, hk, List.take_succ_cons, List.getD_cons_zero]

theorem contentDetermines_getV32 (content : List UInt8) :
    ContentDetermines MarshalM.getV32 content :=
  contentDetermines_of fun hall junk => SparseInt.loadI32_append _ junk (by
    rw [getD_take_bufSize, List.length_take]
    omega)

theorem contentDetermines_getV64 {content : List UInt8}
    (h8 : SparseInt.bufSize (content.getD 0 0) ≠ 8 ∨ content.length < 8) :
    ContentDetermines MarshalM.getV64 content :=
  contentDetermines_of fun hall junk => SparseInt.loadI64_append _ junk
    (by rw [getD_take_bufSize]; omega)
    (by rw [getD_take_bufSize, List.length_take]; omega)

/-! ## Where the operators stay in their arrays -/

theorem staysInBuffers_getV32 (content : List UInt8) :
    StaysInBuffers getV32From content ↔ content.getD 0 0 < 0xF8 ∨ content.length ≤ 5 := by
  rw [getV32From, staysInBuffers_iff, ← SparseInt.bufSize_le_five_iff]
  simp only [List.length_take]
  constructor
  · intro hgood
    cases content with
    | nil => exact .inr (by simp)
    | cons b rest =>
      obtain ⟨hsize, -⟩ := hgood (by simp)
      omega
  · intro hcond hne
    refine ⟨by omega, fun hall s hs => ?_⟩
    rw [SparseInt.loadI32From_of_le (by rw [getD_take_bufSize, List.length_take]; omega)] at hs
    cases hs

theorem staysInBuffers_getV64 (content : List UInt8) :
    StaysInBuffers getV64From content ↔ content.getD 0 0 ≠ 0xFE ∨ content.length < 8 := by
  have hbyte : content.getD 0 0 ≠ 0xFE ↔ SparseInt.bufSize (content.getD 0 0) ≠ 8 :=
    not_congr (SparseInt.bufSize_eq_eight_iff _).symm
  rw [getV64From, staysInBuffers_iff, hbyte]
  have h9 := SparseInt.bufSize_le_nine (content.getD 0 0)
  simp only [List.length_take]
  constructor
  · intro hgood
    by_contra hcond
    push Not at hcond
    obtain ⟨h8, hlen⟩ := hcond
    obtain ⟨-, hload⟩ := hgood (by rintro rfl; simp at hlen)
    -- all eight bytes are there, and the loader wants a ninth
    refine hload (by omega) _ (SparseInt.loadI64From_eight ?_ ?_)
    · rw [getD_take_bufSize, h8]
    · rw [List.length_take, h8]
      omega
  · intro hcond hne
    refine ⟨by omega, fun hall s hs => ?_⟩
    rw [SparseInt.loadI64From_of_le (by rw [getD_take_bufSize]; omega)
      (by rw [getD_take_bufSize, List.length_take]; omega)] at hs
    cases hs

/-- **The decoders and their buffers**: on any bytes, `operator>>` of a `v32` keeps to its array
    unless the first byte announces more than five bytes and more than five are there, and
    `operator>>` of a `v64` unless it announces eight and they are there. -/
theorem varints_in_buffers_iff (content : List UInt8) :
    ((StaysInBuffers getV32From content ∧ ContentDetermines MarshalM.getV32 content) ↔
      content.getD 0 0 < 0xF8 ∨ content.length ≤ 5) ∧
    ((StaysInBuffers getV64From content ∧ ContentDetermines MarshalM.getV64 content) ↔
      content.getD 0 0 ≠ 0xFE ∨ content.length < 8) := by
  constructor
  · rw [staysInBuffers_getV32]
    exact and_iff_left (contentDetermines_getV32 content)
  · rw [staysInBuffers_getV64]
    refine and_iff_left_of_imp fun hcond => contentDetermines_getV64 ?_
    rwa [ne_eq, SparseInt.bufSize_eq_eight_iff]

/-- Nine bytes `0xFF` overrun the array of the `v32`, and of eight bytes that begin with `0xFE`
    the decoder of the `v64` looks at a ninth. -/
theorem varints_stray :
    ¬ StaysInBuffers getV32From (List.replicate 9 0xFF) ∧
      ¬ StaysInBuffers getV64From (0xFE :: List.replicate 7 0) := by
  rw [staysInBuffers_getV32, staysInBuffers_getV64]
  decide

/-! ## The checked operators and the unchecked ones -/

/-- What the loader makes of all announced bytes it also makes of them in a larger array, so a
    checked operator returns what the unchecked one does. -/
private theorem sparse_of_from {load' : List UInt8 → α} {buf : List UInt8} {h : Heap} {m : Marshal}
    (hm : m.Ok h) {v : α} {s : Heap × Marshal}
    (hload : ∀ written, SparseInt.bufSize (written.getD 0 0) = written.length →
      load written = .ok v → load' (SparseInt.storeAt buf written) = v)
    (hget : getSparseFrom size load (h, m) = .ok (v, s)) :
    (do let byte0 ← MarshalM.peek 1
        let bytes ← MarshalM.read (SparseInt.bufSize (byte0.getD 0 0))
        pure (load' (SparseInt.storeAt buf bytes)) : MarshalM α) (h, m) = .ok (v, s) := by
  cases hcontent : m.content h with
  | nil =>
    -- without a first byte the checked operator fails too
    rw [getSparseFrom_nil hm hcontent] at hget
    cases hget
  | cons b rest =>
    obtain ⟨m', hread, heq⟩ := getSparseFrom_cons size load hm hcontent
    have hpeek : m.peek h 1 = [b] := by
      rw [Marshal.peek_spec hm, hcontent]
      rfl
    rw [heq] at hget
    generalize hw : (b :: rest).take (SparseInt.bufSize b) = written at hread hget
    -- the three checks have passed
    by_cases hsize : written.length ≤ size
    · rw [SparseInt.copyTo, if_pos hsize] at hget
      by_cases hall : written.length = SparseInt.bufSize b
      · rw [verify_of hall] at hget
        cases hv : load written with
        | error e => simp [Except.mapError, bind, Except.bind, hv] at hget
        | ok v' =>
          obtain ⟨rfl, rfl⟩ : v' = v ∧ (h, m') = s := by
            simpa [Except.mapError, bind, Except.bind, pure, Except.pure, hv] using hget
          have hfirst : written.getD 0 0 = b := by
            have := getD_take_bufSize (b :: rest)
            rwa [List.getD_cons_zero, hw] at this
          have hval := hload written (by rw [hfirst]; omega) hv
          change ((MarshalM.peek 1 (h, m) >>= fun r => _ : Except Fault _)) = _
          rw [MarshalM.peek, hpeek]
          change ((MarshalM.read (SparseInt.bufSize b) (h, m) >>= fun r => _ : Except Fault _)) = _
          rw [MarshalM.read, hread]
          simp only [ok_bind, verify_of hall]
          rw [← hval]
          rfl
      · -- a failed check would not have returned
        rw [verify, if_neg hall] at hget
        simp [Except.mapError, bind, Except.bind] at hget
    · rw [SparseInt.copyTo, if_neg hsize] at hget
      simp [Except.mapError, bind, Except.bind] at hget

/-- Where `operator>>` of a `v32` passes every check of its array, it returns what the unchecked
    one returns, whatever the array held. -/
theorem getV32_of_from {h : Heap} {m : Marshal} (hm : m.Ok h) {v : Int32} {s : Heap × Marshal}
    (hget : getV32From (h, m) = .ok (v, s)) (buf : List UInt8) :
    MarshalM.getV32 buf (h, m) = .ok (v, s) := by
  refine sparse_of_from hm (fun written hlen hload => ?_) hget
  rw [SparseInt.loadI32From_of_le hlen.le] at hload
  rw [SparseInt.storeAt, SparseInt.loadI32_append _ _ hlen.le]
  exact Except.ok.inj hload

theorem getV64_of_from {h : Heap} {m : Marshal} (hm : m.Ok h) {v : Int64} {s : Heap × Marshal}
    (hget : getV64From (h, m) = .ok (v, s)) (buf : List UInt8) :
    MarshalM.getV64 buf (h, m) = .ok (v, s) := by
  refine sparse_of_from hm (fun written hlen hload => ?_) hget
  by_cases h8 : SparseInt.bufSize (written.getD 0 0) = 8
  · -- the loader has not looked at a ninth byte
    rw [SparseInt.loadI64From_eight h8 (by omega)] at hload
    cases hload
  · rw [SparseInt.loadI64From_of_le h8 hlen.le] at hload
    rw [SparseInt.storeAt, SparseInt.loadI64_append _ _ h8 hlen.le]
    exact Except.ok.inj hload


/-! ## One code for `v32` and `v64` -/

/-- **One code**: a 32-bit value is the same bytes as a `v32` and as a `v64`, and in front of any
    bytes both operators take exactly these and give the value. -/
theorem v32_v64_one_code (v : Int32) :
    (∀ buf, SparseInt.dump64 v.toInt64 buf = SparseInt.dump32 v buf) ∧
    ∀ (buf buf5 buf9 rest : List UInt8) (h : Heap) (m : Marshal), m.Ok h →
      m.content h = (SparseInt.dump32 v buf).2.take (SparseInt.dump32 v buf).1 ++ rest →
      (∃ m', MarshalM.getV32 buf5 (h, m) = .ok (v, h, m') ∧
        Marshal.Consumes h m m' (SparseInt.dump32 v buf).1 ∧ m'.content h = rest) ∧
      ∃ m', MarshalM.getV64 buf9 (h, m) = .ok (v.toInt64, h, m') ∧
        Marshal.Consumes h m m' (SparseInt.dump32 v buf).1 ∧ m'.content h = rest := by
  refine ⟨SparseInt.dump64_toInt64 v, fun buf buf5 buf9 rest h m hm hcontent => ?_⟩
  have hlen := SparseInt.dump32_fst v buf
  have hlo := v.le_toInt
  have hhi := v.toInt_lt
  rw [SparseInt.take_dump32] at hcontent
  obtain ⟨m₃, hget32, hc32, -⟩ := gets_getV32 buf5 v h m rest hm hcontent
  rw [← SparseInt.encode64_toInt64] at hcontent
  have h8 : SparseInt.valSize v.toInt64 ≠ 8 :=
    SparseInt.valSize_ne_eight (by rw [Int32.toInt_toInt64]; omega)
      (by rw [Int32.toInt_toInt64]; omega)
  obtain ⟨m₆, hget64, hc64, -⟩ := gets_getV64 buf9 v.toInt64 h8 h m rest hm hcontent
  have hrest : (m.content h).drop (SparseInt.dump32 v buf).1 = rest := by
    rw [hcontent, SparseInt.encode64_toInt64, hlen, List.drop_left]
  rw [SparseInt.encode64_toInt64, ← hlen] at hc64
  rw [← hlen] at hc32
  exact ⟨⟨m₃, hget32, hc32, hc32.content_eq.trans hrest⟩,
    ⟨m₆, hget64, hc64, hc64.content_eq.trans hrest⟩⟩

/-- Minus one million and `0x7F` behind it. -/
theorem v32_v64_one_code_neg :
    ∃ (h : Heap) (m m' : Marshal), m.content h = [0xD0, 0xBD, 0xC0, 0x7F] ∧
      MarshalM.getV64 [] (h, m) = .ok (-1000000, h, m') ∧ m'.content h = [0x7F] := by
  obtain ⟨h, m, hm, hcontent⟩ := exists_content [0xD0, 0xBD, 0xC0, 0x7F]
  obtain ⟨-, m', hget, -, hrest⟩ :=
    (v32_v64_one_code (-1000000)).2 [] [] [] [0x7F] h m hm (by rw [hcontent]; decide)
  exact ⟨h, m, m', hcontent, hget, hrest⟩

end SimpleRpc.Rpc
