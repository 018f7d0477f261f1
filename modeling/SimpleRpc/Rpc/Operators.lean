import SimpleRpc.Base.SparseInt
import SimpleRpc.Rpc.MarshalQueue

/-!
# `operator<<` and `operator>>` on Leaf Types (`rpc/marshal.h`)

The stream operators run in `MarshalM`, which carries the heap and one Marshal and may fault.

## Rules

- `Puts act bs`: from any well-formed Marshal, `act` returns and appends exactly `bs`
- `Gets act bs x`: from any well-formed Marshal that starts with `bs`, `act` returns `x` and
  consumes exactly `bs`

Both compose along `do` blocks, so a reader or writer of a compound value needs no more than the
rules for its parts.

## Model

The local arrays of the `v32` and `v64` operators are uninitialised; what they held before is
the parameter `buf`. Hosts are little endian.
-/

namespace SimpleRpc.Rpc

open SimpleRpc.Lib SimpleRpc.Base

/-- Computations on one Marshal. -/
abbrev MarshalM := StateT (Heap × Marshal) (Except Fault)

namespace MarshalM

/-- `verify(m.write(p, n) == n)` -/
def write (p : List UInt8) : MarshalM Unit := fun (h, m) => do
  let (h, m) ← m.write h p
  pure ((), h, m)

/-- `verify(m.read(p, n) == n)` -/
def read (n : Nat) : MarshalM (List UInt8) := fun (h, m) => do
  let (m, bytes) ← m.read h n
  verify (bytes.length = n)
  pure (bytes, h, m)

/-- `verify(m.peek(p, n) == n)` -/
def peek (n : Nat) : MarshalM (List UInt8) := fun (h, m) => do
  let bytes := m.peek h n
  verify (bytes.length = n)
  pure (bytes, h, m)

/-- A fault. -/
def fail {α : Type} (e : Fault) : MarshalM α := fun _ => .error e

end MarshalM

/-! ## Rules for writers and readers -/

/-- `act` appends exactly `bs`. -/
def Puts (act : MarshalM Unit) (bs : List UInt8) : Prop :=
  ∀ h m, m.Ok h → ∃ h' m' new, act (h, m) = .ok ((), h', m') ∧
    Marshal.Appends h m h' m' new bs ∧ m'.writeCnt = m.writeCnt + Int32.ofNat bs.length

/-- In front of `bs`, `act` returns `x` and consumes exactly `bs`. -/
def Gets {α : Type} (act : MarshalM α) (bs : List UInt8) (x : α) : Prop :=
  ∀ h m rest, m.Ok h → m.content h = bs ++ rest → ∃ m', act (h, m) = .ok (x, h, m') ∧
    Marshal.Consumes h m m' bs.length ∧ m'.writeCnt = m.writeCnt

theorem Puts.pure : Puts (Pure.pure ()) [] := by
  intro h m hm
  exact ⟨h, m, [], rfl, .refl hm, by simp⟩

theorem Puts.bind {a b : MarshalM Unit} {x y : List UInt8} (ha : Puts a x) (hb : Puts b y) :
    Puts (a >>= fun _ => b) (x ++ y) := by
  intro h m hm
  obtain ⟨h₁, m₁, new, heq, happ, hcnt⟩ := ha h m hm
  obtain ⟨h₂, m₂, new', heq', happ', hcnt'⟩ := hb h₁ m₁ happ.ok
  refine ⟨h₂, m₂, new ++ new', ?_, happ.trans happ', ?_⟩
  · change (a (h, m) >>= fun r => b r.2) = _
    rw [heq, ok_bind, heq']
  · rw [hcnt', hcnt, List.length_append, Int32.ofNat_add, Int32.add_assoc]

theorem Puts.write (p : List UInt8) : Puts (MarshalM.write p) p := by
  intro h m hm
  obtain ⟨h', m', new, heq, happ, hcnt⟩ := Marshal.write_spec hm p
  exact ⟨h', m', new, by simp [MarshalM.write, heq], happ, hcnt⟩

theorem Gets.pure {α : Type} (x : α) : Gets (Pure.pure x) [] x := by
  intro h m rest hm _
  exact ⟨m, rfl, .refl hm, rfl⟩

theorem Gets.bind {α β : Type} {a : MarshalM α} {f : α → MarshalM β} {bs cs : List UInt8} {x : α}
    {y : β} (ha : Gets a bs x) (hf : Gets (f x) cs y) : Gets (a >>= f) (bs ++ cs) y := by
  intro h m rest hm hcontent
  rw [List.append_assoc] at hcontent
  obtain ⟨m₁, heq, hc, hcnt⟩ := ha h m _ hm hcontent
  have hcontent₁ : m₁.content h = cs ++ rest := by
    rw [hc.content_eq, hcontent, List.drop_left]
  obtain ⟨m₂, heq', hc', hcnt'⟩ := hf h m₁ rest hc.ok hcontent₁
  refine ⟨m₂, ?_, ?_, hcnt'.trans hcnt⟩
  · change (a (h, m) >>= fun r => f r.1 r.2) = _
    rw [heq, ok_bind, heq']
  · rw [List.length_append]
    exact hc.trans hc'

/-- Post-processing what was read. -/
theorem Gets.map {α β : Type} {a : MarshalM α} {bs : List UInt8} {x : α} (ha : Gets a bs x)
    (f : α → β) : Gets (do let v ← a; Pure.pure (f v)) bs (f x) := by
  have := ha.bind (f := fun v => Pure.pure (f v)) (Gets.pure (f x))
  rwa [List.append_nil] at this

theorem Gets.read (bs : List UInt8) : Gets (MarshalM.read bs.length) bs bs := by
  intro h m rest hm hcontent
  obtain ⟨m', heq, hc, hcnt⟩ := Marshal.read_spec hm bs.length
  rw [hcontent, List.take_left] at heq
  exact ⟨m', by simp [MarshalM.read, heq, verify_of], hc, hcnt⟩

/-- Looking at the first bytes before reading them. -/
theorem Gets.peek_bind {β : Type} {f : List UInt8 → MarshalM β} {bs : List UInt8} {y : β} {n : Nat}
    (hn : n ≤ bs.length) (hf : Gets (f (bs.take n)) bs y) : Gets (MarshalM.peek n >>= f) bs y := by
  intro h m rest hm hcontent
  obtain ⟨m', heq, hc, hcnt⟩ := hf h m rest hm hcontent
  have hpeek : m.peek h n = bs.take n := by
    rw [Marshal.peek_spec hm, hcontent, List.take_append_of_le_length hn]
  refine ⟨m', ?_, hc, hcnt⟩
  change (MarshalM.peek n (h, m) >>= fun r => f r.1 r.2) = _
  rw [MarshalM.peek, hpeek, verify_of (by rw [List.length_take]; omega)]
  exact heq

/-- Whatever `act` finds, it only consumes bytes. -/
def Reads {α : Type} (act : MarshalM α) : Prop :=
  ∀ h m x h' m', m.Ok h → act (h, m) = .ok (x, h', m') →
    h' = h ∧ (∃ n, Marshal.Consumes h m m' n) ∧ m'.writeCnt = m.writeCnt

theorem Reads.pure {α : Type} (x : α) : Reads (Pure.pure x) := by
  intro h m y h' m' hm heq
  cases heq
  exact ⟨rfl, ⟨0, .refl hm⟩, rfl⟩

theorem Reads.bind {α β : Type} {a : MarshalM α} {f : α → MarshalM β} (ha : Reads a)
    (hf : ∀ x, Reads (f x)) : Reads (a >>= f) := by
  intro h m y h' m' hm heq
  change (a (h, m) >>= fun r => f r.1 r.2) = .ok (y, h', m') at heq
  obtain ⟨⟨x, h₁, m₁⟩, ha', hf'⟩ := bind_eq_ok.mp heq
  obtain ⟨rfl, ⟨k, hc⟩, hcnt⟩ := ha h m x h₁ m₁ hm ha'
  obtain ⟨rfl, ⟨n, hc'⟩, hcnt'⟩ := hf x h₁ m₁ y h' m' hc.ok hf'
  exact ⟨rfl, ⟨k + n, hc.trans hc'⟩, hcnt'.trans hcnt⟩

theorem Reads.fail {α : Type} (e : Fault) : Reads (MarshalM.fail e : MarshalM α) := by
  intro h m y h' m' hm heq
  cases heq

theorem Reads.read (n : Nat) : Reads (MarshalM.read n) := by
  intro h m y h' m' hm heq
  obtain ⟨m₁, hread, hc, hcnt⟩ := Marshal.read_spec hm n
  simp only [MarshalM.read, hread, ok_bind, pure_eq_ok] at heq
  obtain ⟨-, -, hret⟩ := bind_eq_ok.mp heq
  obtain ⟨rfl, rfl, rfl⟩ : (m.content h).take n = y ∧ h = h' ∧ m₁ = m' := by simpa using hret
  exact ⟨rfl, ⟨n, hc⟩, hcnt⟩

theorem Reads.peek (n : Nat) : Reads (MarshalM.peek n) := by
  intro h m y h' m' hm heq
  obtain ⟨-, -, hret⟩ := bind_eq_ok.mp heq
  obtain ⟨-, rfl, rfl⟩ : m.peek h n = y ∧ h = h' ∧ m = m' := by simpa using hret
  exact ⟨rfl, ⟨0, .refl hm⟩, rfl⟩

/-! ## Fixed-width integers -/

namespace MarshalM

/-- `operator<<` of an object whose representation is the integer `n` in `k` bytes. -/
def putNat (k n : Nat) : MarshalM Unit := write (leBytes k n)

/-- `operator>>` of an object of `k` bytes. -/
def getNat (k : Nat) : MarshalM Nat := do
  let bytes ← read k
  pure (leNat bytes)

/-- `operator<<(Marshal&, const i32&)` -/
def putI32 (v : Int32) : MarshalM Unit := putNat 4 v.toUInt32.toNat

/-- `operator>>(Marshal&, i32&)` -/
def getI32 : MarshalM Int32 := do
  let n ← getNat 4
  pure (UInt32.ofNat n).toInt32

/-! ## Variable-length integers -/

/-- `operator<<(Marshal&, const v32&)`; `buf` is what `char buf[5]` held. -/
def putV32 (buf : List UInt8) (v : Int32) : MarshalM Unit :=
  let (bsize, buf) := SparseInt.dump32 v buf
  write (buf.take bsize)

/-- `operator<<(Marshal&, const v64&)`; `buf` is what `char buf[9]` held. -/
def putV64 (buf : List UInt8) (v : Int64) : MarshalM Unit :=
  let (bsize, buf) := SparseInt.dump64 v buf
  write (buf.take bsize)

/-- `operator>>(Marshal&, v32&)` -/
def getV32 (buf : List UInt8) : MarshalM Int32 := do
  let byte0 ← peek 1
  let bytes ← read (SparseInt.bufSize (byte0.getD 0 0))
  pure (SparseInt.loadI32 (SparseInt.storeAt buf bytes))

/-- `operator>>(Marshal&, v64&)` -/
def getV64 (buf : List UInt8) : MarshalM Int64 := do
  let byte0 ← peek 1
  let bytes ← read (SparseInt.bufSize (byte0.getD 0 0))
  pure (SparseInt.loadI64 (SparseInt.storeAt buf bytes))

end MarshalM

theorem puts_putNat (k n : Nat) : Puts (MarshalM.putNat k n) (leBytes k n) := Puts.write _

theorem gets_getNat {k n : Nat} (hn : n < 256 ^ k) : Gets (MarshalM.getNat k) (leBytes k n) n := by
  have hread := (Gets.read (leBytes k n)).map leNat
  rw [leNat_leBytes_of_lt hn, leBytes_length] at hread
  exact hread

theorem gets_getI32 (v : Int32) : Gets MarshalM.getI32 (leBytes 4 v.toUInt32.toNat) v := by
  have hget := (gets_getNat (k := 4) v.toUInt32.toNat_lt).map fun n => (UInt32.ofNat n).toInt32
  rw [UInt32.ofNat_toNat] at hget
  exact hget

theorem puts_putV32 (buf : List UInt8) (v : Int32) :
    Puts (MarshalM.putV32 buf v) (SparseInt.encode32 v) := by
  rw [← SparseInt.take_dump32 v buf]
  exact Puts.write _

theorem puts_putV64 (buf : List UInt8) (v : Int64) :
    Puts (MarshalM.putV64 buf v) (SparseInt.encode64 v) := by
  rw [← SparseInt.take_dump64 v buf]
  exact Puts.write _

/-- The decoder reads the byte that tells the length twice. -/
private theorem gets_sparse {α : Type} (load : List UInt8 → α) (bs : List UInt8)
    (hsize : SparseInt.bufSize (bs.getD 0 0) = bs.length) :
    Gets (do let byte0 ← MarshalM.peek 1
             let bytes ← MarshalM.read (SparseInt.bufSize (byte0.getD 0 0))
             pure (load bytes)) bs (load bs) := by
  refine Gets.peek_bind (hsize ▸ SparseInt.bufSize_pos _) ?_
  have hfst : (bs.take 1).getD 0 0 = bs.getD 0 0 := by
    cases bs with
    | nil => rfl
    | cons b bs => rfl
  rw [hfst, hsize]
  exact (Gets.read bs).map load

theorem gets_getV32 (buf : List UInt8) (v : Int32) :
    Gets (MarshalM.getV32 buf) (SparseInt.encode32 v) v := by
  have hsize := SparseInt.bufSize_encode32 v []
  rw [List.append_nil, ← SparseInt.encode32_length] at hsize
  have hget := gets_sparse (fun bytes => SparseInt.loadI32 (SparseInt.storeAt buf bytes)) _ hsize
  rwa [SparseInt.loadI32_encode32] at hget

/-- What `operator>>` makes of any bytes, as many as the first one announces. -/
theorem reads_getV32 (buf : List UInt8) : Reads (MarshalM.getV32 buf) :=
  (Reads.peek 1).bind fun _ => (Reads.read _).bind fun _ => Reads.pure _

theorem reads_getV64 (buf : List UInt8) : Reads (MarshalM.getV64 buf) :=
  (Reads.peek 1).bind fun _ => (Reads.read _).bind fun _ => Reads.pure _

theorem gets_getV64_bytes (buf bs : List UInt8)
    (hsize : SparseInt.bufSize (bs.getD 0 0) = bs.length) :
    Gets (MarshalM.getV64 buf) bs (SparseInt.loadI64 (SparseInt.storeAt buf bs)) :=
  gets_sparse (fun bytes => SparseInt.loadI64 (SparseInt.storeAt buf bytes)) _ hsize

/-- What `operator>>` makes of an encoded `v64`, in every length class. -/
theorem gets_getV64_load (buf : List UInt8) (v : Int64) :
    Gets (MarshalM.getV64 buf) (SparseInt.encode64 v)
      (SparseInt.loadI64 (SparseInt.storeAt buf (SparseInt.encode64 v))) := by
  have hsize := SparseInt.bufSize_encode64 v []
  rw [List.append_nil, ← SparseInt.encode64_length] at hsize
  exact gets_getV64_bytes buf _ hsize

theorem gets_getV64 (buf : List UInt8) (v : Int64) (h8 : SparseInt.valSize v ≠ 8) :
    Gets (MarshalM.getV64 buf) (SparseInt.encode64 v) v := by
  have hget := gets_getV64_load buf v
  rwa [SparseInt.loadI64_encode64 v h8] at hget

/-! ## The `v64` round trip -/

/-- `m << v64(v)` appends `val_size(v)` bytes, and `m >> w` gives `v` back from exactly these
    bytes, whatever was queued before, whatever follows and whatever the local arrays held. -/
def V64RoundTrip (v : Int64) : Prop :=
  ∀ h (m : Marshal), m.Ok h → m.SelfExclusive h → ∀ buf buf' b : List UInt8, buf'.length = 9 →
    ∃ h₁ m₁ bytes, MarshalM.putV64 buf v (h, m) = .ok ((), h₁, m₁) ∧
      m₁.content h₁ = m.content h ++ bytes ∧ bytes.length = SparseInt.valSize v ∧
      ∀ h₂ (m₂ : Marshal), m₂.Ok h₂ → m₂.content h₂ = bytes ++ b →
        ∃ m₃, MarshalM.getV64 buf' (h₂, m₂) = .ok (v, h₂, m₃) ∧ m₃.content h₂ = b

theorem v64RoundTrip_of_ne_eight {v : Int64} (h8 : SparseInt.valSize v ≠ 8) : V64RoundTrip v := by
  intro h m hm hex buf buf' b _
  obtain ⟨h₁, m₁, new, hput, happ, -⟩ := puts_putV64 buf v h m hm
  refine ⟨h₁, m₁, SparseInt.encode64 v, hput, happ.content_eq hm hex, SparseInt.encode64_length v,
    fun h₂ m₂ hm₂ hcontent => ?_⟩
  obtain ⟨m₃, hget, hc, -⟩ := gets_getV64 buf' v h8 h₂ m₂ b hm₂ hcontent
  exact ⟨m₃, hget, by rw [hc.content_eq, hcontent, List.drop_left]⟩

/-- The decoder takes the low-order byte from its own uninitialised array. -/
theorem not_v64RoundTrip_of_eight {v : Int64} (h8 : SparseInt.valSize v = 8) :
    ¬ V64RoundTrip v := by
  intro hrt
  -- let the decoder's array hold a wrong low-order byte
  obtain ⟨x, hx⟩ : ∃ x : UInt8, x.toNat ≠ v.toUInt64.toNat % 256 :=
    if h0 : v.toUInt64.toNat % 256 = 0 then ⟨1, by rw [h0]; decide⟩ else ⟨0, fun h => h0 h.symm⟩
  let h : Heap := .empty
  obtain ⟨h₁, m₁, bytes, hput, hcontent, -, hget⟩ :=
    hrt h .empty (Marshal.ok_empty h) (List.disjoint_nil_left _) [] (List.replicate 8 0 ++ [x]) []
      (by simp)
  obtain ⟨h₁', m₁', new, hput', happ, -⟩ := puts_putV64 [] v h .empty (Marshal.ok_empty h)
  obtain ⟨rfl, rfl⟩ : h₁' = h₁ ∧ m₁' = m₁ := by
    simpa using hput'.symm.trans hput
  have hbytes := happ.content_eq (Marshal.ok_empty h) (List.disjoint_nil_left _)
  rw [hcontent, List.append_cancel_left_eq] at hbytes
  rw [hbytes, List.append_nil] at hget
  obtain ⟨m₃, hv, -⟩ := hget h₁' m₁' happ.ok (by rw [hcontent, hbytes]; rfl)
  obtain ⟨m₃', hload, -⟩ := gets_getV64_load (List.replicate 8 0 ++ [x]) v h₁' m₁' [] happ.ok
    (by rw [hcontent, hbytes, List.append_nil]; rfl)
  have heq : SparseInt.loadI64 (SparseInt.storeAt (List.replicate 8 0 ++ [x])
      (SparseInt.encode64 v)) = v := by
    have := hload.symm.trans hv
    simp only [Except.ok.injEq, Prod.mk.injEq] at this
    exact this.1
  have hlow := SparseInt.loadI64_encode64_eight v h8 (List.replicate 8 0 ++ [x]) (by simp)
  rw [heq] at hlow
  have hget8 : (List.replicate 8 0 ++ [x]).getD 8 0 = x := rfl
  rw [hget8] at hlow
  omega

/-- **The `v64` round trip** works exactly outside the 8-byte class, where the encoder reports
    one byte less than it fills. -/
theorem v64RoundTrip_iff (v : Int64) : V64RoundTrip v ↔ SparseInt.valSize v ≠ 8 :=
  ⟨fun hrt h8 => not_v64RoundTrip_of_eight h8 hrt, v64RoundTrip_of_ne_eight⟩

/-- 2^48 is the least positive value that does not survive. -/
theorem not_v64RoundTrip_two_pow_48 : ¬ V64RoundTrip 281474976710656 :=
  not_v64RoundTrip_of_eight (by decide)

end SimpleRpc.Rpc
