import Mathlib.Tactic.Ring
import Mathlib.Data.List.Basic

/-!
# Little-Endian Byte Strings

A number of `k` bytes is stored with its low-order byte first. `leBytes k n` is the
object representation of `n` in `k` bytes and `leNat` reads one back.

## Main results

- `leNat_leBytes`: reading what was stored gives the number modulo `256 ^ k`
- `leBytes_leNat`: storing what was read gives the bytes back
-/

namespace SimpleRpc.Lib

/-- The `k` low-order bytes of `n`, low-order byte first. -/
def leBytes : Nat → Nat → List UInt8
  | 0, _ => []
  | k + 1, n => UInt8.ofNat n :: leBytes k (n / 256)

/-- The number a little-endian byte string stands for. -/
def leNat : List UInt8 → Nat
  | [] => 0
  | b :: bs => b.toNat + 256 * leNat bs

@[simp] theorem leBytes_length (k n : Nat) : (leBytes k n).length = k := by
  induction k generalizing n with
  | zero => rfl
  | succ k ih => simp [leBytes, ih]

theorem leNat_lt (bs : List UInt8) : leNat bs < 256 ^ bs.length := by
  induction bs with
  | nil => simp [leNat]
  | cons b bs ih =>
    have hb : b.toNat < 256 := b.toNat_lt
    simp only [leNat, List.length_cons, Nat.pow_succ]
    omega

/-- Reading back `k` stored bytes gives the number modulo `256 ^ k`. -/
theorem leNat_leBytes (k n : Nat) : leNat (leBytes k n) = n % 256 ^ k := by
  induction k generalizing n with
  | zero => simp [leBytes, leNat, Nat.mod_one]
  | succ k ih =>
    have hb : (UInt8.ofNat n).toNat = n % 256 := by simp
    rw [leBytes, leNat, ih, hb, Nat.pow_succ, Nat.mul_comm (256 ^ k) 256, Nat.mod_mul]

theorem leNat_leBytes_of_lt {k n : Nat} (h : n < 256 ^ k) : leNat (leBytes k n) = n := by
  rw [leNat_leBytes, Nat.mod_eq_of_lt h]

/-- Storing what was read gives the bytes back. -/
theorem leBytes_leNat (bs : List UInt8) : leBytes bs.length (leNat bs) = bs := by
  induction bs with
  | nil => rfl
  | cons b bs ih =>
    have hb : b.toNat < 256 := b.toNat_lt
    have hdiv : (b.toNat + 256 * leNat bs) / 256 = leNat bs := by omega
    have hmod : UInt8.ofNat (b.toNat + 256 * leNat bs) = b := by
      apply UInt8.toNat_inj.mp
      rw [UInt8.toNat_ofNat']
      omega
    simp only [List.length_cons, leBytes, leNat, hdiv, hmod, ih]

theorem leNat_append (xs ys : List UInt8) :
    leNat (xs ++ ys) = leNat xs + 256 ^ xs.length * leNat ys := by
  induction xs with
  | nil => simp [leNat]
  | cons x xs ih =>
    simp only [List.cons_append, leNat, ih, List.length_cons, Nat.pow_succ]
    ring

theorem leNat_replicate_zero (n : Nat) : leNat (List.replicate n 0) = 0 := by
  induction n with
  | zero => rfl
  | succ n ih => simp [List.replicate_succ, leNat, ih]

theorem leNat_replicate_ff (n : Nat) : leNat (List.replicate n 0xFF) = 256 ^ n - 1 := by
  induction n with
  | zero => rfl
  | succ n ih =>
    have hpos : 1 ≤ 256 ^ n := Nat.one_le_pow _ _ (by decide)
    have hff : (0xFF : UInt8).toNat = 255 := rfl
    simp only [List.replicate_succ, leNat, ih, Nat.pow_succ, hff]
    omega

end SimpleRpc.Lib
