import Mathlib.Data.List.TakeWhile
import Mathlib.Algebra.BigOperators.Group.List.Basic
import Mathlib.Algebra.Group.Basic

/-!
# Running Totals and Sliding Windows

A sliding window over a list of weighted events can be kept as a list of running totals: what
fell into the window is a difference of two of them. This module has the bookkeeping: lists along
which a condition stays true once it is, running totals of any part of a list, and trimming at
the front.

## Main results

- `StaysIn.filter_eq_dropWhile`, `StaysIn.takeWhile_reverse`: a window is what a scan from the
  front leaves, and what a scan from the back takes
- `filter_running`: the totals in the window are those of the events in it
- `StaysIn.sum_eq`: a sum is that in front of a window and that in it
-/

namespace SimpleRpc.Lib

variable {α β γ : Type}

/-! ## Trimming -/

/-- Trimming again, with a condition that holds wherever the first one held. -/
theorem dropWhile_dropWhile {p q : α → Bool} (hpq : ∀ x, p x = true → q x = true) (xs : List α) :
    (xs.dropWhile p).dropWhile q = xs.dropWhile q := by
  induction xs with
  | nil => rfl
  | cons x xs ih =>
    cases hp : p x with
    | false => rw [List.dropWhile_cons_of_neg (by simp [hp])]
    | true =>
      rw [List.dropWhile_cons_of_pos hp, List.dropWhile_cons_of_pos (hpq x hp), ih]

/-- Trimming what is not looked for. -/
theorem filter_dropWhile {p q : α → Bool} (hpq : ∀ x, p x = true → q x = false) (xs : List α) :
    (xs.dropWhile p).filter q = xs.filter q := by
  induction xs with
  | nil => rfl
  | cons x xs ih =>
    cases hp : p x with
    | false => rw [List.dropWhile_cons_of_neg (by simp [hp])]
    | true =>
      rw [List.dropWhile_cons_of_pos hp, ih, List.filter_cons_of_neg (by simp [hpq x hp])]

/-- What does not reach the last element leaves it in place. -/
theorem dropWhile_concat {p : α → Bool} {x : α} (hx : p x = false) (xs : List α) :
    (xs ++ [x]).dropWhile p = xs.dropWhile p ++ [x] := by
  induction xs with
  | nil => exact List.dropWhile_cons_of_neg (by simp [hx])
  | cons y ys ih =>
    cases hy : p y with
    | false =>
      rw [List.cons_append, List.dropWhile_cons_of_neg (by simp [hy]),
        List.dropWhile_cons_of_neg (by simp [hy]), List.cons_append]
    | true => rw [List.cons_append, List.dropWhile_cons_of_pos hy, List.dropWhile_cons_of_pos hy, ih]

/-! ## Windows -/

/-- Along `xs`, what is once in the window is followed only by what is in it. -/
def StaysIn (p : α → Bool) (xs : List α) : Prop := xs.Pairwise fun a b => p a = true → p b = true

theorem StaysIn.filter_eq_dropWhile {p : α → Bool} {xs : List α} (h : StaysIn p xs) :
    xs.filter p = xs.dropWhile fun x => !p x := by
  induction xs with
  | nil => rfl
  | cons x xs ih =>
    obtain ⟨hx, hxs⟩ := List.pairwise_cons.mp h
    cases hp : p x with
    | false =>
      rw [List.filter_cons_of_neg (by simp [hp]), List.dropWhile_cons_of_pos (by simp [hp]), ih hxs]
    | true =>
      -- from here on everything is in the window
      rw [List.dropWhile_cons_of_neg (by simp [hp]), List.filter_eq_self]
      intro y hy
      rcases List.mem_cons.mp hy with rfl | hy
      · exact hp
      · exact hx y hy hp

/-- A scan from the back takes the window, backwards. -/
theorem StaysIn.takeWhile_reverse {p : α → Bool} {xs : List α} (h : StaysIn p xs) :
    xs.reverse.takeWhile p = (xs.filter p).reverse := by
  induction xs with
  | nil => rfl
  | cons x xs ih =>
    obtain ⟨hx, hxs⟩ := List.pairwise_cons.mp h
    rw [List.reverse_cons]
    cases hp : p x with
    | false =>
      -- `x` is before the window
      rw [List.filter_cons_of_neg (by simp [hp]), ← ih hxs, List.takeWhile_append]
      split
      · rw [List.takeWhile_cons_of_neg (by simp [hp]), List.append_nil]
        exact (List.takeWhile_prefix p).eq_of_length ‹_› |>.symm
      · rfl
    | true =>
      -- `x` is in the window, and so is all that follows
      have hall : ∀ y ∈ xs.reverse ++ [x], p y = true := by
        intro y hy
        rcases List.mem_append.mp hy with hy | hy
        · exact hx y (List.mem_reverse.mp hy) hp
        · rwa [List.mem_singleton.mp hy]
      have hself : xs.filter p = xs :=
        List.filter_eq_self.mpr fun y hy => hx y hy hp
      rw [List.filter_cons_of_pos hp, hself, List.reverse_cons, List.takeWhile_eq_self_iff.mpr hall]

/-! ## Running totals -/

section Running

variable [AddCommGroup γ] (record : γ → α → β) (weight : α → γ)

/-- The record of each event, with the sum of the weights up to it. -/
def running (acc : γ) : List α → List β
  | [] => []
  | x :: xs => record (acc + weight x) x :: running (acc + weight x) xs

theorem running_append (acc : γ) (xs ys : List α) :
    running record weight acc (xs ++ ys) =
      running record weight acc xs ++ running record weight (acc + (xs.map weight).sum) ys := by
  induction xs generalizing acc with
  | nil => simp [running]
  | cons x xs ih =>
    simp only [List.cons_append, running, ih, List.map_cons, List.sum_cons, add_assoc]

variable {record}

/-- A condition on records that looks at the event only. -/
theorem running_staysIn {p : α → Bool} {q : β → Bool} (hpq : ∀ acc x, q (record acc x) = p x)
    {xs : List α} (h : StaysIn p xs) (acc : γ) : StaysIn q (running record weight acc xs) := by
  have hmem : ∀ (acc : γ) (xs : List α), ∀ r ∈ running record weight acc xs,
      ∃ acc', ∃ x ∈ xs, r = record acc' x := by
    intro acc xs
    induction xs generalizing acc with
    | nil => intro r hr; cases hr
    | cons x xs ih =>
      intro r hr
      rcases List.mem_cons.mp hr with rfl | hr
      · exact ⟨_, x, List.mem_cons_self, rfl⟩
      · obtain ⟨acc', y, hy, rfl⟩ := ih _ r hr
        exact ⟨acc', y, List.mem_cons_of_mem x hy, rfl⟩
  induction xs generalizing acc with
  | nil => exact List.Pairwise.nil
  | cons x xs ih =>
    obtain ⟨hx, hxs⟩ := List.pairwise_cons.mp h
    refine List.pairwise_cons.mpr ⟨fun r hr hq => ?_, ih hxs _⟩
    obtain ⟨acc', y, hy, rfl⟩ := hmem _ _ r hr
    rw [hpq] at hq ⊢
    exact hx y hy hq

/-- **The totals in a window** are those of the events in it, on top of what came before. -/
theorem filter_running {p : α → Bool} {q : β → Bool} (hpq : ∀ acc x, q (record acc x) = p x)
    {xs : List α} (h : StaysIn p xs) (acc : γ) :
    (running record weight acc xs).filter q =
      running record weight (acc + ((xs.takeWhile fun x => !p x).map weight).sum) (xs.filter p) := by
  rw [h.filter_eq_dropWhile]
  induction xs generalizing acc with
  | nil => rfl
  | cons x xs ih =>
    obtain ⟨hx, hxs⟩ := List.pairwise_cons.mp h
    cases hp : p x with
    | false =>
      rw [running, List.filter_cons_of_neg (by simp [hpq, hp]), ih hxs,
        List.dropWhile_cons_of_pos (by simp [hp]), List.takeWhile_cons_of_pos (by simp [hp]),
        List.map_cons, List.sum_cons, add_assoc]
    | true =>
      rw [List.dropWhile_cons_of_neg (by simp [hp]), List.takeWhile_cons_of_neg (by simp [hp]),
        List.map_nil, List.sum_nil, add_zero]
      have hq := running_staysIn weight hpq h acc
      rw [running] at hq ⊢
      rw [hq.filter_eq_dropWhile, List.dropWhile_cons_of_neg (by simp [hpq, hp])]

/-- The sum over a list is that in front of the window and that in it. -/
theorem StaysIn.sum_eq {p : α → Bool} {xs : List α} (h : StaysIn p xs) :
    (xs.map weight).sum =
      ((xs.takeWhile fun x => !p x).map weight).sum + ((xs.filter p).map weight).sum := by
  rw [h.filter_eq_dropWhile, ← List.sum_append, ← List.map_append, List.takeWhile_append_dropWhile]

end Running

end SimpleRpc.Lib
