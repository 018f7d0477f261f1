import Mathlib.Data.List.Perm.Basic
import Mathlib.Data.List.Nodup
import Mathlib.Order.Basic
import Mathlib.Logic.Function.Basic
import SimpleRpc.Lib.Enumerators

/-!
# `MergedEnumerator` (`base/basetypes.h`)

A `MergedEnumerator` holds the next element of each of its sources in a priority queue, hands out
the smallest one and asks its source for another. It is an `Enumerator` itself, so that it can be a
source of another one.

## Layers

- **Code**: `Source`, an object behind an `Enumerator*`, with `hasNext` and `next`, and `addSource`
- **Abstract**: `Family`, what a tree of sources was made from, with all of its elements
- **Invariant**: `Serves`, the queue has the first of the elements that remain of each source, and
  the source has the others

## Main results

- `Serves.add`: what `add_source` does, and what `next` does behind `pop`
- `Serves.drains`: from such a state on, the elements that remain are handed out in order
- `merged_enumerator_merges`: draining trees of any depth

## Model

- `operator<` of the helper is turned around, since a `priority_queue` has its maximum on top
- a pointer is a number, and the sources of a `MergedEnumerator` are its own
- the queue is any `PriorityQueue`; which of several maximal elements is on top is left open
- `has_next` of a source has no side effects
-/

namespace SimpleRpc.Base

open SimpleRpc.Lib

/-- `struct merge_helper` -/
structure MergeHelper (α : Type) where
  data : α
  src : Nat

/-- `operator <`, with `Compare = std::greater<T>` -/
def MergeHelper.lt {α : Type} [LT α] (a b : MergeHelper α) : Prop := b.data < a.data

instance {α : Type} [LT α] [DecidableLT α] : DecidableRel (MergeHelper.lt (α := α)) :=
  fun a b => inferInstanceAs (Decidable (b.data < a.data))

/-- An object behind an `Enumerator*`: an enumerator of somebody else in state `s`, or a
    `MergedEnumerator` with its queue and the objects it points to. -/
inductive Source (σ Q : Type) where
  | leaf (s : σ)
  | merged (q : Q) (store : Nat → Source σ Q)

/-! ## The code -/

section Code

variable {σ Q α : Type} [LT α] (L : Enumerator σ α)
  (P : PriorityQueue Q (MergeHelper α) MergeHelper.lt)

/-- `has_next()` -/
def Source.hasNext : Source σ Q → Bool
  | .leaf s => L.hasNext s
  | .merged q _ => !P.isEmpty q

/-- `next()` -/
def Source.next : Source σ Q → Option (α × Source σ Q)
  | .leaf s => (L.next s).map fun r => (r.1, .leaf r.2)
  | .merged q store => do
    let mh ← P.top q
    let q := P.pop q
    if (store mh.src).hasNext L P then
      let (data, src) ← (store mh.src).next
      some (mh.data, .merged (P.push ⟨data, mh.src⟩ q) (Function.update store mh.src src))
    else some (mh.data, .merged q store)

/-- `add_source(src)` -/
def addSource (q : Q) (store : Nat → Source σ Q) (src : Nat) : Option (Q × (Nat → Source σ Q)) :=
  if (store src).hasNext L P then do
    let (data, src') ← (store src).next L P
    some (P.push ⟨data, src⟩ q, Function.update store src src')
  else some (q, store)

/-- The sources are added one after the other. -/
def addSources (q : Q) (store : Nat → Source σ Q) : List Nat → Option (Q × (Nat → Source σ Q))
  | [] => some (q, store)
  | src :: rest => do
    let (q, store) ← addSource L P q store src
    addSources q store rest

/-- Sources as a machine. -/
def sources : Enumerator (Source σ Q) α := ⟨Source.hasNext L P, Source.next L P⟩

/-- `next` ends like `add_source`, with the source whose element was on top. -/
theorem next_merged {q : Q} {mh : MergeHelper α} (htop : P.top q = some mh)
    (store : Nat → Source σ Q) :
    (Source.merged q store).next L P = (addSource L P (P.pop q) store mh.src).map
      fun r => (mh.data, .merged r.1 r.2) := by
  rw [Source.next, addSource]
  simp only [htop, Option.bind_eq_bind, Option.bind_some]
  split
  · cases (store mh.src).next L P with
    | none => rfl
    | some r => rfl
  · rfl

end Code

/-! ## Families of sources -/

variable {σ Q α : Type} [Preorder α] (L : Enumerator σ α)
  (P : PriorityQueue Q (MergeHelper α) MergeHelper.lt)

/-- In non-decreasing order. -/
def Ascending (xs : List α) : Prop := xs.Pairwise (· ≤ ·)

/-- A tree of sources before anything was taken from it, with the elements of its leaves: each leaf
    hands out its elements in order. -/
inductive Family : Source σ Q → List α → Prop
  | leaf {s s' : σ} {xs : List α} (hdrains : L.Drains s xs s') (hasc : Ascending xs) :
      Family (.leaf s) xs
  | merged {srcs : List Nat} {store store' : Nat → Source σ Q} {q : Q} {xs : Nat → List α}
      (hnodup : srcs.Nodup) (hsrcs : ∀ i ∈ srcs, Family (store i) (xs i))
      (hadded : addSources L P P.empty store srcs = some (q, store')) :
      Family (.merged q store') (srcs.flatMap xs)

/-! ## The invariant -/

/-- `remaining i` has yet to be handed out from the source `i`: its first element is in the queue,
    the others are still behind the pointer. -/
structure Serves (srcs : List Nat) (remaining : Nat → List α) (q : Q) (store : Nat → Source σ Q) :
    Prop where
  heads : P.contents q = (srcs.filterMap fun i =>
    (remaining i).head?.map fun data => MergeHelper.mk data i : List (MergeHelper α))
  tails : ∀ i ∈ srcs, ∃ s', (sources L P).Drains (store i) (remaining i).tail s'
  ascending : ∀ i ∈ srcs, Ascending (remaining i)

variable {L P}

theorem serves_empty (remaining : Nat → List α) (store : Nat → Source σ Q) :
    Serves L P [] remaining P.empty store where
  heads := P.contents_empty
  tails i hi := by cases hi
  ascending i hi := by cases hi

theorem Serves.perm {srcs srcs' : List Nat} {remaining : Nat → List α} {q : Q}
    {store : Nat → Source σ Q} (h : Serves L P srcs remaining q store) (hperm : srcs.Perm srcs') :
    Serves L P srcs' remaining q store where
  heads := h.heads.trans (Multiset.coe_eq_coe.mpr (hperm.filterMap _))
  tails i hi := h.tails i (hperm.mem_iff.mpr hi)
  ascending i hi := h.ascending i (hperm.mem_iff.mpr hi)

/-- A source is added, or the one whose element was taken is looked at again. -/
theorem Serves.add {srcs : List Nat} {remaining : Nat → List α} {q : Q} {store : Nat → Source σ Q}
    (h : Serves L P srcs remaining q store) {i : Nat} (hi : i ∉ srcs) {ys : List α} {s' : Source σ Q}
    (hdrains : (sources L P).Drains (store i) ys s') (hasc : Ascending ys) :
    ∃ q' store', addSource L P q store i = some (q', store') ∧
      Serves L P (i :: srcs) (Function.update remaining i ys) q' store' ∧
      ∀ j, j ≠ i → store' j = store j := by
  have hother : ∀ j ∈ srcs, Function.update remaining i ys j = remaining j := fun j hj =>
    Function.update_of_ne (fun hji : j = i => hi (hji ▸ hj)) ..
  have hheads : (srcs.filterMap fun j => (Function.update remaining i ys j).head?.map
      fun data => MergeHelper.mk data j) =
        srcs.filterMap fun j => (remaining j).head?.map fun data => MergeHelper.mk data j := by
    apply List.filterMap_congr
    intro j hj
    rw [hother j hj]
  have hasc' : ∀ j ∈ i :: srcs, Ascending (Function.update remaining i ys j) := by
    intro j hj
    rcases List.mem_cons.mp hj with rfl | hj
    · rwa [Function.update_self]
    · rw [hother j hj]
      exact h.ascending j hj
  cases ys with
  | nil =>
    -- the source has nothing left
    obtain ⟨hnot, -⟩ := hdrains.nil_inv
    refine ⟨q, store, if_neg (by simpa [sources] using hnot), ⟨?_, fun j hj => ?_, hasc'⟩,
      fun _ _ => rfl⟩
    · rw [h.heads, List.filterMap_cons, hheads, Function.update_self]
      rfl
    · rcases List.mem_cons.mp hj with rfl | hj
      · rw [Function.update_self]
        exact ⟨_, hdrains⟩
      · rw [hother j hj]
        exact h.tails j hj
  | cons y ys =>
    -- its next element goes into the queue
    obtain ⟨hhas, s₁, hnext, hrest⟩ := hdrains.cons_inv
    have hhas' : (store i).hasNext L P = true := hhas
    have hnext' : (store i).next L P = some (y, s₁) := hnext
    refine ⟨P.push ⟨y, i⟩ q, Function.update store i s₁, ?_, ⟨?_, fun j hj => ?_, hasc'⟩,
      fun j hj => Function.update_of_ne hj ..⟩
    · rw [addSource, if_pos hhas']
      simp only [hnext', Option.bind_eq_bind, Option.bind_some]
    · rw [P.contents_push, h.heads, List.filterMap_cons, hheads, Function.update_self]
      rfl
    · rcases List.mem_cons.mp hj with rfl | hj
      · rw [Function.update_self, Function.update_self]
        exact ⟨s', hrest⟩
      · have hne : j ≠ i := fun hji => hi (hji ▸ hj)
        rw [hother j hj, Function.update_of_ne hne]
        exact h.tails j hj

/-- What is on top of the queue is the first of what remains of some source, and no element that
    remains is smaller. -/
theorem Serves.top [Std.Total (α := α) (· ≤ ·)] {srcs : List Nat} {remaining : Nat → List α} {q : Q}
    {store : Nat → Source σ Q} (h : Serves L P srcs remaining q store) {mh : MergeHelper α}
    (htop : P.top q = some mh) :
    mh.src ∈ srcs ∧ (∃ rest, remaining mh.src = mh.data :: rest) ∧
      ∀ i ∈ srcs, ∀ x ∈ remaining i, mh.data ≤ x := by
  have hhead : ∀ i ∈ srcs, ∀ x rest, remaining i = x :: rest → (⟨x, i⟩ : MergeHelper α) ∈ P.contents q := by
    -- the queue has the head of every source
    intro i hi x rest hrem
    rw [h.heads, Multiset.mem_coe, List.mem_filterMap]
    exact ⟨i, hi, by rw [hrem]; rfl⟩
  have hmem : mh ∈ P.contents q := by
    rw [P.contents_pop q mh htop]
    exact Multiset.mem_cons_self ..
  rw [h.heads, Multiset.mem_coe, List.mem_filterMap] at hmem
  obtain ⟨i, hi, hsome⟩ := hmem
  obtain ⟨x, hx, rfl⟩ := Option.map_eq_some_iff.mp hsome
  refine ⟨hi, ?_, fun j hj y hy => ?_⟩
  · -- what is on top is the head of its source
    cases hrem : remaining i with
    | nil => simp [hrem] at hx
    | cons x' rest =>
      obtain rfl : x' = x := by simpa [hrem] using hx
      exact ⟨rest, rfl⟩
  · cases hrem : remaining j with
    | nil => simp [hrem] at hy
    | cons z rest =>
      -- `z` is in the queue, and what is on top is maximal for the inverted order
      have hnot := P.top_maximal q _ htop _ (hhead j hj z rest hrem)
      have hxz : x ≤ z := by
        rcases Std.Total.total (r := (· ≤ ·)) x z with hle | hle
        · exact hle
        · exact Classical.byContradiction fun hnle => hnot (lt_of_le_not_ge hle hnle)
      rw [hrem] at hy
      rcases List.mem_cons.mp hy with rfl | hy
      · -- the head of another source
        exact hxz
      · -- and what comes behind it, which is ascending
        have hasc := h.ascending j hj
        rw [hrem] at hasc
        exact le_trans hxz ((List.pairwise_cons.mp hasc).1 y hy)

/-- **One round** of draining. -/
theorem Serves.next [Std.Total (α := α) (· ≤ ·)] {srcs : List Nat} (hnodup : srcs.Nodup)
    {remaining : Nat → List α} {q : Q} {store : Nat → Source σ Q}
    (h : Serves L P srcs remaining q store) {mh : MergeHelper α} (htop : P.top q = some mh) :
    ∃ rest q' store', remaining mh.src = mh.data :: rest ∧
      (sources L P).next (.merged q store) = some (mh.data, .merged q' store') ∧
      Serves L P srcs (Function.update remaining mh.src rest) q' store' := by
  obtain ⟨hsrc, ⟨rest, hrem⟩, -⟩ := h.top htop
  have hperm : srcs.Perm (mh.src :: srcs.erase mh.src) := List.perm_cons_erase hsrc
  have hnotin : mh.src ∉ srcs.erase mh.src := fun hmem => by
    simpa using (hnodup.mem_erase_iff.mp hmem).1
  obtain ⟨s', hdrains⟩ := h.tails _ hsrc
  rw [hrem, List.tail_cons] at hdrains
  have hasc : Ascending rest := by
    have := h.ascending _ hsrc
    rw [hrem] at this
    exact (List.pairwise_cons.mp this).2
  have hpop : Serves L P (srcs.erase mh.src) remaining (P.pop q) store := by
    refine ⟨?_, fun i hi => h.tails i (List.mem_of_mem_erase hi),
      fun i hi => h.ascending i (List.mem_of_mem_erase hi)⟩
    have hheads := (h.perm hperm).heads
    rw [P.contents_pop q mh htop, List.filterMap_cons, hrem] at hheads
    exact (Multiset.cons_inj_right mh).mp hheads
  obtain ⟨q', store', hadd, hserves, -⟩ := hpop.add hnotin hdrains hasc
  refine ⟨rest, q', store', hrem, ?_, hserves.perm hperm.symm⟩
  show Source.next L P _ = _
  rw [next_merged L P htop, hadd]
  rfl

/-- What remains, when the first element of a source is gone. -/
theorem flatMap_update_perm {β : Type} {srcs : List Nat} (hnodup : srcs.Nodup)
    {remaining : Nat → List β} {i : Nat} (hi : i ∈ srcs) {x : β} {rest : List β}
    (hrem : remaining i = x :: rest) :
    (srcs.flatMap remaining).Perm (x :: srcs.flatMap (Function.update remaining i rest)) := by
  have hperm : srcs.Perm (i :: srcs.erase i) := List.perm_cons_erase hi
  have hother : (srcs.erase i).flatMap (Function.update remaining i rest) =
      (srcs.erase i).flatMap remaining := by
    apply List.flatMap_congr
    intro j hj
    exact Function.update_of_ne (hnodup.mem_erase_iff.mp hj).1 ..
  have hleft := hperm.flatMap_right remaining
  have hright := hperm.flatMap_right (Function.update remaining i rest)
  rw [List.flatMap_cons, hrem] at hleft
  rw [List.flatMap_cons, Function.update_self, hother] at hright
  exact hleft.trans (hright.symm.cons x)

/-- **Draining** hands out what remains of the sources, in order. -/
theorem Serves.drains [Std.Total (α := α) (· ≤ ·)] {srcs : List Nat} (hnodup : srcs.Nodup)
    {remaining : Nat → List α} {q : Q} {store : Nat → Source σ Q}
    (h : Serves L P srcs remaining q store) :
    ∃ zs q' store', (sources L P).Drains (.merged q store) zs (.merged q' store') ∧ Ascending zs ∧
      zs.Perm (srcs.flatMap remaining) ∧ ∀ i ∈ srcs, (sources L P).hasNext (store' i) = false := by
  -- by induction on how many elements remain
  generalize hsize : (srcs.flatMap remaining).length = n
  induction n generalizing remaining q store with
  | zero =>
    have hnone : ∀ i ∈ srcs, remaining i = [] := by
      intro i hi
      have hnil := List.length_eq_zero_iff.mp hsize
      exact List.flatMap_eq_nil_iff.mp hnil i hi
    have hempty : P.isEmpty q = true := by
      refine (P.isEmpty_iff q).mpr (h.heads.trans ?_)
      refine Multiset.coe_eq_zero _ |>.mpr (List.filterMap_eq_nil_iff.mpr fun i hi => ?_)
      rw [hnone i hi]
      rfl
    refine ⟨[], q, store, .nil (by simp [sources, Source.hasNext, hempty]), List.Pairwise.nil, ?_,
      fun i hi => ?_⟩
    · rw [List.length_eq_zero_iff.mp hsize]
    · obtain ⟨s', hdrains⟩ := h.tails i hi
      rw [hnone i hi] at hdrains
      exact hdrains.nil_inv.1
  | succ n ih =>
    have hne : P.contents q ≠ 0 := by
      intro hzero
      have hnone := h.heads.symm.trans hzero
      have hnil : srcs.flatMap remaining = [] := by
        refine List.flatMap_eq_nil_iff.mpr fun i hi => ?_
        have := List.filterMap_eq_nil_iff.mp ((Multiset.coe_eq_zero _).mp hnone) i hi
        cases hrem : remaining i with
        | nil => rfl
        | cons x rest => simp [hrem] at this
      simp [hnil] at hsize
    obtain ⟨mh, htop⟩ := P.exists_top q hne
    obtain ⟨hsrc, -, hleast⟩ := h.top htop
    obtain ⟨rest, q₁, store₁, hrem, hnext, hserves⟩ := h.next hnodup htop
    have hperm := flatMap_update_perm hnodup hsrc hrem
    have hsize' : (srcs.flatMap (Function.update remaining mh.src rest)).length = n := by
      have := hperm.length_eq
      rw [hsize, List.length_cons] at this
      omega
    obtain ⟨zs, q', store', hdrains, hasc, hzs, hend⟩ := ih hserves hsize'
    have hhas : (sources L P).hasNext (.merged q store) = true := by
      have hnot : P.isEmpty q = false := by
        rw [Bool.eq_false_iff]
        exact fun hempty => hne ((P.isEmpty_iff q).mp hempty)
      simp [sources, Source.hasNext, hnot]
    refine ⟨mh.data :: zs, q', store', .cons hhas hnext hdrains,
      List.pairwise_cons.mpr ⟨fun y hy => ?_, hasc⟩, (hzs.cons mh.data).trans hperm.symm, hend⟩
    have hmem : y ∈ srcs.flatMap remaining :=
      hperm.mem_iff.mpr (List.mem_cons_of_mem _ (hzs.mem_iff.mp hy))
    obtain ⟨i, hi, hyi⟩ := List.mem_flatMap.mp hmem
    exact hleast i hi y hyi

/-! ## Adding sources -/

theorem Serves.addSources {srcs : List Nat} {xs : Nat → List α} {added : List Nat} {q : Q}
    {store : Nat → Source σ Q} (h : Serves L P added xs q store) (hnodup : (srcs ++ added).Nodup)
    (hsrcs : ∀ i ∈ srcs, Ascending (xs i) ∧ ∃ s', (sources L P).Drains (store i) (xs i) s') :
    ∃ q' store', addSources L P q store srcs = some (q', store') ∧
      Serves L P (srcs.reverse ++ added) xs q' store' := by
  induction srcs generalizing added q store with
  | nil => exact ⟨q, store, rfl, h⟩
  | cons i rest ih =>
    obtain ⟨hi, hrest⟩ := List.nodup_cons.mp hnodup
    obtain ⟨hasc, s', hdrains⟩ := hsrcs i List.mem_cons_self
    obtain ⟨q₁, store₁, hadd, hserves, hother⟩ :=
      h.add (fun hmem => hi (List.mem_append_right _ hmem)) hdrains hasc
    rw [Function.update_eq_self] at hserves
    have hnodup' : (rest ++ i :: added).Nodup := List.perm_middle.nodup_iff.mpr hnodup
    obtain ⟨q', store', hadds, hserves'⟩ := ih hserves hnodup' fun j hj => by
      have hne : j ≠ i := fun hji => hi (List.mem_append_left _ (hji ▸ hj))
      rw [hother j hne]
      exact hsrcs j (List.mem_cons_of_mem i hj)
    refine ⟨q', store', ?_, ?_⟩
    · rw [Base.addSources, hadd]
      exact hadds
    · rw [List.reverse_cons, List.append_assoc, List.singleton_append]
      exact hserves'

/-- With all sources added, the queue serves all of their elements. -/
theorem serves_addSources {srcs : List Nat} (hnodup : srcs.Nodup) {xs : Nat → List α}
    {store : Nat → Source σ Q}
    (hsrcs : ∀ i ∈ srcs, Ascending (xs i) ∧ ∃ s', (sources L P).Drains (store i) (xs i) s') :
    ∃ q store', addSources L P P.empty store srcs = some (q, store') ∧
      Serves L P srcs xs q store' := by
  obtain ⟨q, store', hadded, hserves⟩ :=
    (serves_empty xs store).addSources (by rwa [List.append_nil]) hsrcs
  rw [List.append_nil] at hserves
  exact ⟨q, store', hadded, hserves.perm srcs.reverse_perm⟩

/-! ## Trees of sources -/

theorem drains_leaf {s s' : σ} {xs : List α} (h : L.Drains s xs s') :
    (sources L P).Drains (.leaf s) xs (.leaf s') := by
  induction xs generalizing s with
  | nil =>
    obtain ⟨hend, rfl⟩ := h.nil_inv
    exact .nil hend
  | cons x xs ih =>
    obtain ⟨hhas, s₁, hnext, hrest⟩ := h.cons_inv
    refine .cons hhas ?_ (ih hrest)
    show (L.next s).map _ = _
    rw [hnext]
    rfl

/-- **Draining a tree** of any depth: by induction on the tree, each source of a `MergedEnumerator`
    hands out its elements in order. -/
theorem Family.drains [Std.Total (α := α) (· ≤ ·)] {s : Source σ Q} {xs : List α}
    (h : Family L P s xs) :
    ∃ zs, Ascending zs ∧ (∃ s', (sources L P).Drains s zs s') ∧ zs.Perm xs := by
  induction h with
  | leaf hdrains hasc => exact ⟨_, hasc, ⟨_, drains_leaf hdrains⟩, .refl _⟩
  | @merged srcs store store' q xs hnodup hsrcs hadded ih =>
    choose! zs hasc hdrains hperm using ih
    obtain ⟨q₁, store₁, hadded₁, hserves⟩ :=
      serves_addSources hnodup fun i hi => ⟨hasc i hi, hdrains i hi⟩
    obtain ⟨rfl, rfl⟩ : q₁ = q ∧ store₁ = store' := by simpa using hadded₁.symm.trans hadded
    obtain ⟨ws, q', store'', hdrains', hasc', hperm', -⟩ := hserves.drains hnodup
    exact ⟨ws, hasc', ⟨_, hdrains'⟩, hperm'.trans (List.Perm.flatMap_left _ hperm)⟩

/-- **`MergedEnumerator` is a k-way merge**: sources that hand out their elements in order can all
    be added, and then draining hands out a permutation of all of their elements, in order, and
    ends when these and no fewer were handed out, with every source at its end. The result is a
    source of the same kind. -/
theorem merged_enumerator_merges [Std.Total (α := α) (· ≤ ·)] {srcs : List Nat}
    (hnodup : srcs.Nodup) {store : Nat → Source σ Q} {xs : Nat → List α}
    (hsrcs : ∀ i ∈ srcs, Family L P (store i) (xs i)) :
    ∃ q store', addSources L P P.empty store srcs = some (q, store') ∧
      Family L P (.merged q store') (srcs.flatMap xs) ∧
      (∃ zs q' store'', (sources L P).Drains (.merged q store') zs (.merged q' store'') ∧
        Ascending zs ∧ zs.Perm (srcs.flatMap xs) ∧
        ∀ i ∈ srcs, (sources L P).hasNext (store'' i) = false) ∧
      ∀ ys m, (sources L P).Yields (.merged q store') ys m →
        ((sources L P).hasNext m = false ↔ ys.Perm (srcs.flatMap xs)) := by
  choose! zs hasc hdrains hperm using fun i hi => (hsrcs i hi).drains
  obtain ⟨q, store', hadded, hserves⟩ :=
    serves_addSources hnodup fun i hi => ⟨hasc i hi, hdrains i hi⟩
  obtain ⟨ws, q', store'', hdrains', hasc', hperm', hend⟩ := hserves.drains hnodup
  have hall : ws.Perm (srcs.flatMap xs) := hperm'.trans (List.Perm.flatMap_left _ hperm)
  refine ⟨q, store', hadded, .merged hnodup hsrcs hadded,
    ⟨ws, q', store'', hdrains', hasc', hall, hend⟩, fun ys m hrun => ?_⟩
  rw [hdrains'.hasNext_iff hrun]
  constructor
  · intro hlen
    obtain ⟨rest, rfl, -⟩ := hdrains'.split hrun
    have hnil : rest = [] := by simpa using hlen
    rwa [hnil, List.append_nil] at hall
  · intro hys
    rw [hys.length_eq, hall.length_eq]

/-- A list is a queue for the helpers of a linear order. -/
def helperQueue (α : Type) [LinearOrder α] :
    PriorityQueue (List (MergeHelper α)) (MergeHelper α) MergeHelper.lt :=
  listQueue (fun _ _ _ hab hbc => not_lt.mpr (le_trans (not_lt.mp hab) (not_lt.mp hbc)))
    (fun a => lt_irrefl a.data) fun _ _ => lt_asymm

/-- Two lists and a merge of two others. -/
theorem merged_in_merged :
    ∃ inner : Source (List Int) (List (MergeHelper Int)),
    let store : Nat → Source (List Int) (List (MergeHelper Int)) :=
      fun i => if i = 0 then .leaf [1, 4] else if i = 1 then .leaf [2, 2] else inner
    ∃ q store' zs s', addSources listEnumerator (helperQueue Int) [] store [0, 1, 2] =
        some (q, store') ∧
      (sources listEnumerator (helperQueue Int)).Drains (.merged q store') zs s' ∧
      zs.Pairwise (· ≤ ·) ∧ zs.Perm [1, 4, 2, 2, 0, 3] := by
  have hleaf : ∀ xs : List Int, xs.Pairwise (· ≤ ·) →
      Family listEnumerator (helperQueue Int) (.leaf xs) xs :=
    fun xs hasc => .leaf (listEnumerator_drains xs) hasc
  have hinner : ∀ i ∈ [0, 1], Family listEnumerator (helperQueue Int)
      (if i = 0 then .leaf [0, 3] else .leaf []) (if i = 0 then [0, 3] else []) := by
    intro i _
    split
    · exact hleaf _ (by decide)
    · exact hleaf _ (by decide)
  obtain ⟨q₀, store₀, -, hmerged, -⟩ := merged_enumerator_merges (by decide) hinner
  refine ⟨.merged q₀ store₀, ?_⟩
  intro store
  have houter : ∀ i ∈ [0, 1, 2], Family listEnumerator (helperQueue Int) (store i)
      (if i = 0 then [1, 4] else if i = 1 then [2, 2] else [0, 3]) := by
    intro i _
    simp only [store]
    split
    · exact hleaf _ (by decide)
    · split
      · exact hleaf _ (by decide)
      · exact hmerged
  obtain ⟨q, store', hadded, -, ⟨zs, q', store'', hdrains, hasc, hperm, -⟩, -⟩ :=
    merged_enumerator_merges (by decide) houter
  exact ⟨q, store', zs, _, hadded, hdrains, hasc, hperm⟩

end SimpleRpc.Base
