import Mathlib.Data.List.Count
import Mathlib.Data.Set.Insert
import Mathlib.Logic.Function.Basic

/-!
# Reference Counts

Objects that count the references to them: an object begins with one reference, a copy of a
reference adds one, and whoever releases the last one deletes the object. A program with counted
objects stops where it touches one that is gone.

## Layers

- **Objects**: `RefCounts` and the accesses `make`, `use`, `refCopy` and `release`
- **Holders**: `Held made holders r`, the counts are those of a list of references
- **Programs**: `Follows x y r Q`, the program `x` with counted objects does what the program `y`
  does that knows of none

## Main results

- `Follows.make`, `Follows.use`, `Follows.refCopy`, `Follows.release`: the accesses of a program
  that touches only objects it has a reference to
- `Follows.bind`: both programs go on from the same value
-/

namespace SimpleRpc.Lib

/-- Objects named by `ρ`: the references there are to each, and those that were deleted. -/
structure RefCounts (ρ : Type) where
  count : ρ → Nat
  deleted : List ρ

/-- What ends a program with counted objects. -/
inductive Misuse (ε : Type) where
  | fault (e : ε)
  /-- an object was touched that is gone -/
  | dangling
  deriving DecidableEq

/-- A program with counted objects. -/
abbrev Counted (ρ ε : Type) := StateT (RefCounts ρ) (Except (Misuse ε))

namespace RefCounts

variable {ρ : Type}

/-- No object was made. -/
def empty : RefCounts ρ := ⟨fun _ => 0, []⟩

/-- The counts are those of the references in `holders` to objects among `made`, and what nobody
    refers to was deleted. -/
structure Held (made : Set ρ) (holders : List ρ) [DecidableEq ρ] (r : RefCounts ρ) : Prop where
  count_eq : ∀ a, r.count a = holders.count a
  mem_made : ∀ a ∈ holders, a ∈ made
  deleted : ∀ a, a ∈ r.deleted ↔ a ∈ made ∧ a ∉ holders
  once : r.deleted.Nodup

variable [DecidableEq ρ] {made : Set ρ} {holders holders' : List ρ} {r : RefCounts ρ}

theorem held_empty : (empty : RefCounts ρ).Held ∅ [] where
  count_eq _ := rfl
  mem_made _ ha := nomatch ha
  deleted a := by simp [empty]
  once := List.nodup_nil

/-- It does not matter who has which reference. -/
theorem Held.perm (hr : r.Held made holders) (hperm : holders.Perm holders') :
    r.Held made holders' where
  count_eq a := (hr.count_eq a).trans (hperm.count_eq a)
  mem_made a ha := hr.mem_made a (hperm.mem_iff.mpr ha)
  deleted a := by rw [hr.deleted, hperm.mem_iff]
  once := hr.once

theorem Held.count_pos (hr : r.Held made holders) {a : ρ} (ha : a ∈ holders) : r.count a ≠ 0 := by
  rw [hr.count_eq]
  exact (List.count_pos_iff.mpr ha).ne'

end RefCounts

namespace Counted

variable {ρ ε α β : Type} [DecidableEq ρ]

/-! ## Accesses -/

/-- A part of a program that touches no object. -/
def lift (x : Except ε α) : Counted ρ ε α := fun r =>
  match x with
  | .ok a => .ok (a, r)
  | .error e => .error (.fault e)

/-- `RefCounted(): refcnt_(1) {}` -/
def make (a : ρ) : Counted ρ ε Unit := fun r =>
  .ok ((), { r with count := Function.update r.count a 1 })

/-- Any other access. -/
def use (a : ρ) : Counted ρ ε Unit := fun r =>
  if r.count a = 0 then .error .dangling else .ok ((), r)

/-- `RefCounted::ref_copy` -/
def refCopy (a : ρ) : Counted ρ ε Unit := fun r =>
  if r.count a = 0 then .error .dangling
  else .ok ((), { r with count := Function.update r.count a (r.count a + 1) })

/-- `RefCounted::release` -/
def release (a : ρ) : Counted ρ ε Unit := fun r =>
  if r.count a = 0 then .error .dangling
  else
    let count := Function.update r.count a (r.count a - 1)
    .ok ((), ⟨count, if count a = 0 then a :: r.deleted else r.deleted⟩)

section Accesses

variable {made : Set ρ} {holders : List ρ} {a : ρ} {r : RefCounts ρ}

theorem make_held (hr : r.Held made holders) (hnew : a ∉ made) :
    ∃ r', (make a : Counted ρ ε Unit) r = .ok ((), r') ∧ r'.Held (insert a made) (a :: holders) := by
  have hnot : a ∉ holders := fun ha => hnew (hr.mem_made a ha)
  refine ⟨_, rfl, fun b => ?_, fun b hb => ?_, fun b => ?_, hr.once⟩
  · by_cases hba : b = a
    · subst hba
      simp [List.count_eq_zero.mpr hnot]
    · simp [Function.update_of_ne hba, List.count_cons_of_ne (Ne.symm hba), hr.count_eq]
  · rcases List.mem_cons.mp hb with rfl | hb
    · exact Set.mem_insert ..
    · exact Set.mem_insert_of_mem _ (hr.mem_made b hb)
  · rw [hr.deleted, Set.mem_insert_iff, List.mem_cons]
    constructor
    · rintro ⟨hb, hb'⟩
      exact ⟨.inr hb, fun h => h.elim (fun h => hnew (h ▸ hb)) hb'⟩
    · rintro ⟨hb, hb'⟩
      exact ⟨hb.resolve_left fun h => hb' (.inl h), fun h => hb' (.inr h)⟩

theorem use_held (hr : r.Held made holders) (ha : a ∈ holders) :
    (use a : Counted ρ ε Unit) r = .ok ((), r) :=
  if_neg (hr.count_pos ha)

theorem refCopy_held (hr : r.Held made holders) (ha : a ∈ holders) :
    ∃ r', (refCopy a : Counted ρ ε Unit) r = .ok ((), r') ∧ r'.Held made (a :: holders) := by
  refine ⟨_, if_neg (hr.count_pos ha), fun b => ?_, fun b hb => ?_, fun b => ?_, hr.once⟩
  · by_cases hba : b = a
    · subst hba
      simp [hr.count_eq]
    · simp [Function.update_of_ne hba, List.count_cons_of_ne (Ne.symm hba), hr.count_eq]
  · rcases List.mem_cons.mp hb with rfl | hb
    · exact hr.mem_made _ ha
    · exact hr.mem_made b hb
  · rw [hr.deleted, List.mem_cons]
    refine and_congr_right fun _ => not_congr ⟨.inr, ?_⟩
    rintro (rfl | hb)
    · exact ha
    · exact hb

theorem release_held (hr : r.Held made (a :: holders)) :
    ∃ r', (release a : Counted ρ ε Unit) r = .ok ((), r') ∧ r'.Held made holders := by
  have hcount := hr.count_eq a
  rw [List.count_cons_self] at hcount
  refine ⟨_, if_neg (by omega), fun b => ?_, fun b hb => hr.mem_made b (.tail _ hb), fun b => ?_, ?_⟩
  · -- one count is one less, with one holder less
    by_cases hba : b = a
    · subst hba
      simp [hcount]
    · have hb := hr.count_eq b
      rw [List.count_cons_of_ne (Ne.symm hba)] at hb
      simpa [Function.update_of_ne hba] using hb
  · -- the object is deleted with its last reference
    simp only [Function.update_self, hcount, Nat.add_sub_cancel]
    by_cases hlast : holders.count a = 0
    · have hnot := List.count_eq_zero.mp hlast
      rw [if_pos hlast, List.mem_cons, hr.deleted, List.mem_cons]
      constructor
      · rintro (rfl | ⟨hb, hb'⟩)
        · exact ⟨hr.mem_made _ (.head _), hnot⟩
        · exact ⟨hb, fun h => hb' (.inr h)⟩
      · rintro ⟨hb, hb'⟩
        by_cases hba : b = a
        · exact .inl hba
        · exact .inr ⟨hb, fun h => h.elim hba hb'⟩
    · -- there is another holder, so the object stays
      have hmem : a ∈ holders := List.count_pos_iff.mp (by omega)
      rw [if_neg hlast, hr.deleted, List.mem_cons]
      refine and_congr_right fun _ => not_congr ⟨?_, .inr⟩
      rintro (rfl | hb)
      · exact hmem
      · exact hb
  · -- it was not deleted before, for `a` held it
    simp only [Function.update_self, hcount, Nat.add_sub_cancel]
    split
    · refine List.nodup_cons.mpr ⟨fun h => ?_, hr.once⟩
      exact ((hr.deleted a).mp h).2 (.head _)
    · exact hr.once

end Accesses

/-! ## Programs with and without counts -/

/-- Where `y` returns, `x` returns the same value, and what it leaves satisfies `Q`. -/
def Follows (x : Counted ρ ε α) (y : Except ε α) (r : RefCounts ρ)
    (Q : α → RefCounts ρ → Prop) : Prop :=
  ∀ a, y = .ok a → ∃ r', x r = .ok (a, r') ∧ Q a r'

section Follows

variable {x : Counted ρ ε α} {y : Except ε α} {r : RefCounts ρ} {Q : α → RefCounts ρ → Prop}

omit [DecidableEq ρ]

theorem Follows.pure {a : α} (hQ : Q a r) :
    Follows (Pure.pure a : Counted ρ ε α) (.ok a) r Q := by
  intro b hb
  obtain rfl : a = b := Except.ok.inj hb
  exact ⟨r, rfl, hQ⟩

theorem Follows.lift (hQ : ∀ a, y = .ok a → Q a r) : Follows (Counted.lift y) y r Q := by
  intro a ha
  subst ha
  exact ⟨r, rfl, hQ a rfl⟩

/-- **Composition**: both programs go on from the same value. -/
theorem Follows.bind {f : α → Counted ρ ε β} {g : α → Except ε β} {Q' : β → RefCounts ρ → Prop}
    (hx : Follows x y r Q) (hf : ∀ a r', y = .ok a → Q a r' → Follows (f a) (g a) r' Q') :
    Follows (x >>= f) (y >>= g) r Q' := by
  intro b hb
  cases hy : y with
  | error e =>
    rw [hy] at hb
    cases hb
  | ok a =>
    rw [hy] at hb
    obtain ⟨r', hxr, hQ⟩ := hx a hy
    obtain ⟨r'', hfr, hQ'⟩ := hf a r' hy hQ b hb
    refine ⟨r'', ?_, hQ'⟩
    change (x r >>= fun p => f p.1 p.2) = _
    rw [hxr]
    exact hfr

theorem Follows.mono {Q' : α → RefCounts ρ → Prop} (hx : Follows x y r Q)
    (hQ : ∀ a r', y = .ok a → Q a r' → Q' a r') : Follows x y r Q' := by
  intro a ha
  obtain ⟨r', hxr, h⟩ := hx a ha
  exact ⟨r', hxr, hQ a r' ha h⟩

/-- A part that only the program with counts has. -/
theorem Follows.silent {z : Counted ρ ε β} {f : β → Counted ρ ε α} {b : β} {r' : RefCounts ρ}
    (hz : z r = .ok (b, r')) (hf : Follows (f b) y r' Q) : Follows (z >>= f) y r Q := by
  intro a ha
  obtain ⟨r'', hfr, hQ⟩ := hf a ha
  refine ⟨r'', ?_, hQ⟩
  change (z r >>= fun p => f p.1 p.2) = _
  rw [hz]
  exact hfr

/-- A value that both programs have. -/
theorem Follows.lift_ok {b : β} {f : β → Counted ρ ε α} (hf : Follows (f b) y r Q) :
    Follows (Counted.lift (.ok b) >>= f) y r Q :=
  .silent rfl hf

/-- Where the program without counts fails, nothing is asked. -/
theorem Follows.of_error {e : ε} : Follows x (.error e) r Q :=
  fun _ h => nomatch h

end Follows

section Rules

variable {made : Set ρ} {holders : List ρ} {a : ρ} {r : RefCounts ρ} {f : Unit → Counted ρ ε α}
  {y : Except ε α} {Q : α → RefCounts ρ → Prop}

/-- A new object. -/
theorem Follows.make (hr : r.Held made holders) (hnew : a ∉ made)
    (hf : ∀ r', r'.Held (insert a made) (a :: holders) → Follows (f ()) y r' Q) :
    Follows (Counted.make a >>= f) y r Q := by
  obtain ⟨r', hmake, hr'⟩ := make_held hr hnew
  exact .silent hmake (hf r' hr')

/-- An object that somebody refers to is there. -/
theorem Follows.use (hr : r.Held made holders) (ha : a ∈ holders) (hf : Follows (f ()) y r Q) :
    Follows (Counted.use a >>= f) y r Q :=
  .silent (use_held hr ha) hf

/-- Another reference. -/
theorem Follows.refCopy (hr : r.Held made holders) (ha : a ∈ holders)
    (hf : ∀ r', r'.Held made (a :: holders) → Follows (f ()) y r' Q) :
    Follows (Counted.refCopy a >>= f) y r Q := by
  obtain ⟨r', hcopy, hr'⟩ := refCopy_held hr ha
  exact .silent hcopy (hf r' hr')

/-- One reference less. -/
theorem Follows.release (hr : r.Held made (a :: holders))
    (hf : ∀ r', r'.Held made holders → Follows (f ()) y r' Q) :
    Follows (Counted.release a >>= f) y r Q := by
  obtain ⟨r', hrelease, hr'⟩ := release_held hr
  exact .silent hrelease (hf r' hr')

end Rules

end Counted

end SimpleRpc.Lib
