import SimpleRpc.Rpc.Operators
import SimpleRpc.Rpc.WorldOps

/-!
# Messages

A message on a TCP connection is `<size> <payload>`, where `size` is an `i32`. This file has
what both directions need: stream operators on a Marshal of a process, and the size field.

## Main results

- `World.Inv.puts`, `World.Inv.gets`: the rules of `SimpleRpc.Rpc.Operators` under the
  discipline of `World.Inv`
- `i32OfBytes_leBytes`: the size field of a message below 2^31 bytes is its length
-/

namespace SimpleRpc.Rpc

open SimpleRpc.Lib SimpleRpc.Base

namespace World

variable {ι : Type} [DecidableEq ι] {α : Type}

/-- Stream operators on the Marshal `i`. -/
def run (W : World ι) (i : ι) (act : MarshalM α) : Except Fault (α × World ι) := do
  let (x, h, m) ← act (W.heap, W.marshal i)
  pure (x, W.set i h m)

variable {W : World ι} {ws : Set ι} {i : ι}

theorem Inv.puts (hI : W.Inv ws) (hi : i ∈ ws) {act : MarshalM Unit} {bs : List UInt8}
    (hp : Puts act bs) :
    ∃ W' new, W.run i act = .ok ((), W') ∧ W'.cells i = W.cells i ++ new ∧
      Updates W W' ws i (W.content i ++ bs) (W.writeCnt i + Int32.ofNat bs.length) := by
  obtain ⟨h', m', new, heq, ha, hcnt⟩ := hp W.heap (W.marshal i) (hI.ok.ok i)
  refine ⟨W.set i h' m', new, by simp [run, heq], ?_, ?_⟩
  · rw [cells_set_same, ha.cells_eq]
    rfl
  · have hu := hI.append hi ha
    rwa [hcnt] at hu

theorem Inv.gets (hI : W.Inv ws) {act : MarshalM α} {bs rest : List UInt8} {x : α}
    (hg : Gets act bs x) (hcontent : W.content i = bs ++ rest) :
    ∃ W', W.run i act = .ok (x, W') ∧ Updates W W' ws i rest (W.writeCnt i) := by
  obtain ⟨m', heq, hc, hcnt⟩ := hg W.heap (W.marshal i) rest (hI.ok.ok i) hcontent
  refine ⟨W.set i W.heap m', by simp [run, heq], ?_⟩
  have hu := hI.consume hc
  rw [hcontent, List.drop_left, hcnt] at hu
  exact hu

theorem Inv.reads (hI : W.Inv ws) {act : MarshalM α} (hr : Reads act) {x : α} {W' : World ι}
    (heq : W.run i act = .ok (x, W')) :
    ∃ n, Updates W W' ws i ((W.content i).drop n) (W.writeCnt i) := by
  obtain ⟨⟨y, h', m'⟩, hact, hret⟩ := bind_eq_ok.mp heq
  obtain ⟨rfl, ⟨n, hc⟩, hcnt⟩ := hr _ _ _ _ _ (hI.ok.ok i) hact
  obtain ⟨-, rfl⟩ : y = x ∧ W.set i W.heap m' = W' := by simpa using hret
  have hu := hI.consume hc
  rw [hcnt] at hu
  exact ⟨n, hu⟩

end World

/-! ## Values -/

/-- Something that is written with `<<`: the operator, and the bytes it appends. -/
structure Value where
  put : MarshalM Unit
  bytes : List UInt8
  puts : Puts put bytes

namespace Value

/-- `operator<<` of an object with this representation -/
def raw (p : List UInt8) : Value := ⟨_, p, Puts.write p⟩

/-- `<< i32` -/
def i32 (v : Int32) : Value := ⟨MarshalM.putI32 v, _, puts_putNat 4 v.toUInt32.toNat⟩

/-- `<< v32` -/
def v32 (buf : List UInt8) (v : Int32) : Value := ⟨_, _, puts_putV32 buf v⟩

/-- `<< v64` -/
def v64 (buf : List UInt8) (v : Int64) : Value := ⟨_, _, puts_putV64 buf v⟩

/-- `<< a << b` -/
def andThen (a b : Value) : Value := ⟨do a.put; b.put, _, a.puts.bind b.puts⟩

end Value

/-! ## The size field -/

/-- One message: `<size> <payload>`. -/
def frame (payload : List UInt8) : List UInt8 := leBytes 4 payload.length ++ payload

/-- The `i32` whose representation is `bs`. -/
def i32OfBytes (bs : List UInt8) : Int32 := (UInt32.ofNat (leNat bs)).toInt32

/-- Conversion to `size_t`. -/
def sizeT (x : Int) : Nat := (x % 2 ^ 64).toNat

@[simp] theorem frame_length (payload : List UInt8) :
    (frame payload).length = 4 + payload.length := by
  simp [frame]

theorem leBytes_mod (k n : Nat) : leBytes k (n % 256 ^ k) = leBytes k n := by
  have hleft : leBytes k (leNat (leBytes k n)) = leBytes k n := by
    have := leBytes_leNat (leBytes k n)
    rwa [leBytes_length] at this
  rwa [leNat_leBytes] at hleft

theorem toNat_ofNat_int32 (n : Nat) : (Int32.ofNat n).toUInt32.toNat = n % 2 ^ 32 := by
  have : (Int32.ofNat n).toUInt32 = UInt32.ofNat n := by
    simp [Int32.ofNat, UInt32.ofNat]
  rw [this, UInt32.toNat_ofNat']

/-- The counter of a Marshal wraps around like the size field does. -/
theorem leBytes_ofNat_int32 (n : Nat) :
    leBytes 4 (Int32.ofNat n).toUInt32.toNat = leBytes 4 n := by
  rw [toNat_ofNat_int32]
  exact leBytes_mod 4 n

theorem i32OfBytes_leBytes {n : Nat} (hn : n < 2 ^ 31) : (i32OfBytes (leBytes 4 n)).toInt = n := by
  rw [i32OfBytes, leNat_leBytes_of_lt (by omega)]
  have : (UInt32.ofNat n).toInt32 = Int32.ofNat n := by
    simp [Int32.ofNat, UInt32.toInt32, UInt32.ofNat]
  rw [this, Int32.toInt_ofNat_of_lt hn]

/-- `operator>>(Marshal&, i32&)` on any four bytes. -/
theorem gets_getI32_bytes {bs : List UInt8} (hlen : bs.length = 4) :
    Gets MarshalM.getI32 bs (i32OfBytes bs) := by
  have hlt := leNat_lt bs
  rw [hlen] at hlt
  have hget := (gets_getNat (k := 4) hlt).map fun n => (UInt32.ofNat n).toInt32
  have hback := leBytes_leNat bs
  rw [hlen] at hback
  rwa [hback] at hget

end SimpleRpc.Rpc
