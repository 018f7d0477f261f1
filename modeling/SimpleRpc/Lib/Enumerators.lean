import Mathlib.Data.List.Basic
import Mathlib.Data.Multiset.AddSub
import Mathlib.Data.Multiset.Filter

/-!
# Enumerators and Priority Queues

An enumerator is a machine that is asked for its next element after it was asked whether there is
one. A priority queue is a bag with access to a maximal element.

## Main results

- `Drains.split`, `Drains.hasNext_iff`: what was handed out at some point, and where that ends
- `listEnumerator_drains`: lists are enumerators
- `listQueue`: lists are priority queues for every strict weak order
-/

namespace SimpleRpc.Lib

/-! ## Enumerators -/

/-- A machine that hands out elements of type `α`; `none` where `next` must not be called. -/
structure Enumerator (σ α : Type) where
  hasNext : σ → Bool
  next : σ → Option (α × σ)

namespace Enumerator

variable {σ α : Type} (E : Enumerator σ α)

/-- The elements `xs` are handed out one after the other, each after the enumerator has said that
    there is one. -/
inductive Yields : σ → List α → σ → Prop
  | nil (s : σ) : Yields s [] s
  | cons {s s' s'' : σ} {x : α} {xs : List α} (hhas : E.hasNext s = true)
      (hnext : E.next s = some (x, s')) (hrest : Yields s' xs s'') : Yields s (x :: xs) s''

/-- The elements `xs` are handed out, and there are no more of them. -/
def Drains (s : σ) (xs : List α) (s' : σ) : Prop := E.Yields s xs s' ∧ E.hasNext s' = false

variable {E}

theorem Drains.nil {s : σ} (h : E.hasNext s = false) : E.Drains s [] s := ⟨.nil s, h⟩

theorem Drains.cons {s s' s'' : σ} {x : α} {xs : List α} (hhas : E.hasNext s = true)
    (hnext : E.next s = some (x, s')) (hrest : E.Drains s' xs s'') : E.Drains s (x :: xs) s'' :=
  ⟨.cons hhas hnext hrest.1, hrest.2⟩

/-- Nothing is handed out exactly where there is nothing. -/
theorem Drains.nil_inv {s s' : σ} (h : E.Drains s [] s') : E.hasNext s = false ∧ s' = s := by
  obtain ⟨hrun, hend⟩ := h
  cases hrun
  exact ⟨hend, rfl⟩

theorem Drains.cons_inv {s s'' : σ} {x : α} {xs : List α} (h : E.Drains s (x :: xs) s'') :
    E.hasNext s = true ∧ ∃ s', E.next s = some (x, s') ∧ E.Drains s' xs s'' := by
  obtain ⟨hrun, hend⟩ := h
  cases hrun with
  | cons hhas hnext hrest => exact ⟨hhas, _, hnext, hrest, hend⟩

/-- What was handed out is a front part of what will have been handed out. -/
theorem Drains.split {s s₁ s' : σ} {ys zs : List α} (hrun : E.Yields s ys s₁)
    (h : E.Drains s zs s') : ∃ rest, zs = ys ++ rest ∧ E.Drains s₁ rest s' := by
  induction hrun generalizing zs with
  | nil => exact ⟨zs, rfl, h⟩
  | cons hhas hnext hrest ih =>
    cases zs with
    | nil =>
      obtain ⟨hnot, -⟩ := h.nil_inv
      rw [hhas] at hnot
      cases hnot
    | cons z zs =>
      obtain ⟨-, s₂, hnext', hrest'⟩ := h.cons_inv
      rw [hnext, Option.some.injEq, Prod.mk.injEq] at hnext'
      obtain ⟨rfl, rfl⟩ := hnext'
      obtain ⟨rest, rfl, hdrains⟩ := ih hrest'
      exact ⟨rest, rfl, hdrains⟩

/-- **Where an enumerator ends**: as soon as as many elements were handed out as there are. -/
theorem Drains.hasNext_iff {s s₁ s' : σ} {ys zs : List α} (h : E.Drains s zs s')
    (hrun : E.Yields s ys s₁) : E.hasNext s₁ = false ↔ ys.length = zs.length := by
  obtain ⟨rest, rfl, hrest⟩ := h.split hrun
  cases rest with
  | nil => simpa using hrest.nil_inv.1
  | cons x rest => simp [hrest.cons_inv.1]

end Enumerator

/-- A list, from its first element on. -/
def listEnumerator {α : Type} : Enumerator (List α) α where
  hasNext xs := !xs.isEmpty
  next xs := xs.head?.map fun x => (x, xs.tail)

theorem listEnumerator_drains {α : Type} (xs : List α) : listEnumerator.Drains xs xs [] := by
  induction xs with
  | nil => exact .nil rfl
  | cons x xs ih => exact .cons rfl rfl ih

/-! ## Priority queues -/

/-- A bag of elements, of which a maximal one can be looked at and taken out. -/
structure PriorityQueue (Q β : Type) (lt : β → β → Prop) where
  contents : Q → Multiset β
  empty : Q
  isEmpty : Q → Bool
  push : β → Q → Q
  top : Q → Option β
  pop : Q → Q
  contents_empty : contents empty = 0
  isEmpty_iff : ∀ q, isEmpty q = true ↔ contents q = 0
  contents_push : ∀ b q, contents (push b q) = b ::ₘ contents q
  /-- what is on top is in the bag, and `pop` takes it out -/
  contents_pop : ∀ q b, top q = some b → contents q = b ::ₘ contents (pop q)
  /-- nothing in the bag is greater -/
  top_maximal : ∀ q b, top q = some b → ∀ c ∈ contents q, ¬ lt b c
  exists_top : ∀ q, contents q ≠ 0 → ∃ b, top q = some b

section ListQueue

variable {β : Type} (lt : β → β → Prop) [DecidableRel lt]

/-- A maximal element of a list, and the others. -/
def extractMax : List β → Option (β × List β)
  | [] => none
  | b :: bs =>
    match extractMax bs with
    | none => some (b, bs)
    | some (c, rest) => if lt b c then some (c, b :: rest) else some (b, bs)

variable {lt}

theorem extractMax_eq_none {bs : List β} (h : extractMax lt bs = none) : bs = [] := by
  cases bs with
  | nil => rfl
  | cons b bs =>
    rw [extractMax] at h
    split at h
    · cases h
    · split at h <;> cases h

theorem extractMax_perm {bs rest : List β} {c : β} (h : extractMax lt bs = some (c, rest)) :
    bs.Perm (c :: rest) := by
  induction bs generalizing c rest with
  | nil => cases h
  | cons b bs ih =>
    rw [extractMax] at h
    split at h
    · cases h
      exact .refl _
    · rename_i d others hrec
      split at h
      · cases h
        exact ((ih hrec).cons b).trans (.swap ..)
      · cases h
        exact .refl _

/-- In a strict weak order nothing in the list is greater than what is taken out. -/
theorem extractMax_maximal (hweak : ∀ a b c, ¬ lt a b → ¬ lt b c → ¬ lt a c)
    (hirrefl : ∀ a, ¬ lt a a) (hasymm : ∀ a b, lt a b → ¬ lt b a) {bs rest : List β} {c : β}
    (h : extractMax lt bs = some (c, rest)) : ∀ d ∈ bs, ¬ lt c d := by
  induction bs generalizing c rest with
  | nil => cases h
  | cons b bs ih =>
    rw [extractMax] at h
    intro d hd
    split at h
    · -- nothing is behind `b`
      rename_i hrec
      cases h
      rw [extractMax_eq_none hrec, List.mem_singleton] at hd
      exact hd ▸ hirrefl _
    · rename_i e others hrec
      have hmax := ih hrec
      split at h
      · -- the greatest of the others is greater than `b`
        rename_i hlt
        cases h
        rcases List.mem_cons.mp hd with rfl | hd
        · exact hasymm _ _ hlt
        · exact hmax d hd
      · -- it is not
        rename_i hnlt
        cases h
        rcases List.mem_cons.mp hd with rfl | hd
        · exact hirrefl _
        · exact hweak _ _ _ hnlt (hmax d hd)

/-- Lists as priority queues. -/
def listQueue (hweak : ∀ a b c, ¬ lt a b → ¬ lt b c → ¬ lt a c) (hirrefl : ∀ a, ¬ lt a a)
    (hasymm : ∀ a b, lt a b → ¬ lt b a) : PriorityQueue (List β) β lt where
  contents q := q
  empty := []
  isEmpty := List.isEmpty
  push := List.cons
  top q := (extractMax lt q).map Prod.fst
  pop q := ((extractMax lt q).map Prod.snd).getD []
  contents_empty := rfl
  isEmpty_iff q := by simp
  contents_push _ _ := rfl
  contents_pop q b h := by
    obtain ⟨⟨c, rest⟩, hex, rfl⟩ := Option.map_eq_some_iff.mp h
    rw [hex]
    exact Multiset.coe_eq_coe.mpr (extractMax_perm hex)
  top_maximal q b h c hc := by
    obtain ⟨⟨d, rest⟩, hex, rfl⟩ := Option.map_eq_some_iff.mp h
    exact extractMax_maximal hweak hirrefl hasymm hex c hc
  exists_top q h := by
    cases hex : extractMax lt q with
    | none => exact absurd (by rw [extractMax_eq_none hex]; rfl) h
    | some r => exact ⟨r.1, rfl⟩

end ListQueue

end SimpleRpc.Lib
