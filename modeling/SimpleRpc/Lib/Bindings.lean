import Mathlib.Data.List.Nodup

/-!
# Looking Names Up in Lists of Bindings

A scope is the list of its bindings in program order. Languages differ in what a name means
that is bound more than once.

## Rules

- **`once`**: the name must have exactly one binding (declarations of one scope in C++)
- **`last`**: a later binding overrides an earlier one (assignments in a Python class body,
  the entries of a dict)

A list of names is looked up name by name with `List.mapM`.
-/

namespace SimpleRpc.Lib

variable {κ α β : Type*} [DecidableEq κ]

/-- The value of the only binding of `k`; `none` when there is no binding or a second one. -/
def once : List (κ × α) → κ → Option α
  | [], _ => none
  | (k', a) :: bs, k =>
    if k' = k then (if k ∈ bs.map Prod.fst then none else some a) else once bs k

/-- The value of the last binding of `k`. -/
def last : List (κ × α) → κ → Option α
  | [], _ => none
  | (k', a) :: bs, k => (last bs k).or (if k' = k then some a else none)

/-! ## Exactly one binding -/

theorem once_append_of_notMem {pre bs : List (κ × α)} {k : κ} (h : k ∉ pre.map Prod.fst) :
    once (pre ++ bs) k = once bs k := by
  induction pre with
  | nil => rfl
  | cons b pre ih =>
    obtain ⟨hne, hrest⟩ : k ≠ b.1 ∧ k ∉ pre.map Prod.fst := by simpa using h
    rw [List.cons_append, once, if_neg (Ne.symm hne), ih hrest]

/-- **The meaning of `once`**: one binding, and none before or behind it. -/
theorem once_eq_some_iff {bs : List (κ × α)} {k : κ} {a : α} :
    once bs k = some a ↔ ∃ pre post, bs = pre ++ (k, a) :: post ∧
      k ∉ pre.map Prod.fst ∧ k ∉ post.map Prod.fst := by
  constructor
  · intro h
    induction bs with
    | nil => simp [once] at h
    | cons b bs ih =>
      obtain ⟨k', a'⟩ := b
      rw [once] at h
      by_cases hk : k' = k
      · -- found here, so it must not stand behind
        subst hk
        rw [if_pos rfl] at h
        split at h
        · cases h
        · rename_i hnot
          cases h
          exact ⟨[], bs, rfl, by simp, hnot⟩
      · -- found behind
        rw [if_neg hk] at h
        obtain ⟨pre, post, rfl, hpre, hpost⟩ := ih h
        refine ⟨(k', a') :: pre, post, rfl, ?_, hpost⟩
        rw [List.map_cons, List.mem_cons, not_or]
        exact ⟨Ne.symm hk, hpre⟩
  · rintro ⟨pre, post, rfl, hpre, hpost⟩
    rw [once_append_of_notMem hpre, once, if_pos rfl, if_neg hpost]

/-- Whatever else is bound to the name is the same binding. -/
theorem eq_of_once {bs : List (κ × α)} {k : κ} {a b : α} (h : once bs k = some a)
    (hb : (k, b) ∈ bs) : b = a := by
  obtain ⟨pre, post, rfl, hpre, hpost⟩ := once_eq_some_iff.mp h
  rcases List.mem_append.mp hb with hmem | hmem
  · exact absurd (List.mem_map_of_mem (f := Prod.fst) hmem) hpre
  · rcases List.mem_cons.mp hmem with heq | hmem
    · exact (Prod.mk.inj heq).2
    · exact absurd (List.mem_map_of_mem (f := Prod.fst) hmem) hpost

theorem count_of_once {bs : List (κ × α)} {k : κ} {a : α} (h : once bs k = some a) :
    (bs.map Prod.fst).count k = 1 := by
  obtain ⟨pre, post, rfl, hpre, hpost⟩ := once_eq_some_iff.mp h
  simp [List.count_eq_zero_of_not_mem hpre, List.count_eq_zero_of_not_mem hpost]

theorem once_of_count {bs : List (κ × α)} {k : κ} {a : α} (hmem : (k, a) ∈ bs)
    (hcount : (bs.map Prod.fst).count k = 1) : once bs k = some a := by
  obtain ⟨pre, post, rfl⟩ := List.append_of_mem hmem
  have hrest : (pre.map Prod.fst).count k = 0 ∧ (post.map Prod.fst).count k = 0 := by
    simp only [List.map_append, List.map_cons, List.count_append, List.count_cons_self] at hcount
    omega
  exact once_eq_some_iff.mpr ⟨pre, post, rfl, List.count_eq_zero.mp hrest.1,
    List.count_eq_zero.mp hrest.2⟩

theorem once_of_nodup {bs : List (κ × α)} {k : κ} {a : α} (hmem : (k, a) ∈ bs)
    (hnodup : (bs.map Prod.fst).Nodup) : once bs k = some a :=
  once_of_count hmem (List.count_eq_one_of_mem hnodup (List.mem_map_of_mem (f := Prod.fst) hmem))

/-- An element whose key occurs once splits the list, and the key is on neither side. -/
theorem split_of_count {l : List β} {f : β → κ} {x : β} (hmem : x ∈ l)
    (hcount : (l.map f).count (f x) = 1) :
    ∃ pre post, l = pre ++ x :: post ∧ (∀ y ∈ pre, f y ≠ f x) ∧ ∀ y ∈ post, f y ≠ f x := by
  obtain ⟨pre, post, rfl⟩ := List.append_of_mem hmem
  have hrest : (pre.map f).count (f x) = 0 ∧ (post.map f).count (f x) = 0 := by
    simp only [List.map_append, List.map_cons, List.count_append, List.count_cons_self] at hcount
    omega
  refine ⟨pre, post, rfl, fun y hy heq => ?_, fun y hy heq => ?_⟩
  · exact List.count_eq_zero.mp hrest.1 (heq ▸ List.mem_map_of_mem hy)
  · exact List.count_eq_zero.mp hrest.2 (heq ▸ List.mem_map_of_mem hy)

/-! ## The last binding -/

theorem last_append (bs cs : List (κ × α)) (k : κ) :
    last (bs ++ cs) k = (last cs k).or (last bs k) := by
  induction bs with
  | nil => simp [last]
  | cons b bs ih => rw [List.cons_append, last, ih, last, Option.or_assoc]

theorem last_eq_none {bs : List (κ × α)} {k : κ} (h : k ∉ bs.map Prod.fst) :
    last bs k = none := by
  induction bs with
  | nil => rfl
  | cons b bs ih =>
    obtain ⟨hne, hrest⟩ : k ≠ b.1 ∧ k ∉ bs.map Prod.fst := by simpa using h
    rw [last, ih hrest, if_neg (Ne.symm hne), Option.or_none]

/-- Bindings behind the last one of `k` do not count. -/
theorem last_split {pre post : List (κ × α)} {k : κ} {a : α} (h : k ∉ post.map Prod.fst) :
    last (pre ++ (k, a) :: post) k = some a := by
  rw [last_append, last, last_eq_none h, if_pos rfl]
  rfl

theorem mem_of_last {bs : List (κ × α)} {k : κ} {a : α} (h : last bs k = some a) :
    (k, a) ∈ bs := by
  induction bs with
  | nil => cases h
  | cons b bs ih =>
    rw [last] at h
    rcases Option.or_eq_some_iff.mp h with h | ⟨-, h⟩
    · exact List.mem_cons_of_mem _ (ih h)
    · obtain ⟨rfl, rfl⟩ : b.1 = k ∧ b.2 = a := by simpa using h
      exact List.mem_cons_self

/-! ## Lists of names -/

omit [DecidableEq κ] in
theorem mapM_eq_some {f : κ → Option α} {g : β → κ} {h : β → α} {l : List β}
    (hf : ∀ x ∈ l, f (g x) = some (h x)) : (l.map g).mapM f = some (l.map h) := by
  induction l with
  | nil => rfl
  | cons x l ih =>
    have hrest : (l.map g).mapM f = some (l.map h) :=
      ih fun y hy => hf y (List.mem_cons_of_mem _ hy)
    rw [List.map_cons, List.mapM_cons, hf x (by simp), hrest]
    rfl

/-- Looking up all positions of a list gives the list. -/
theorem mapM_getElem (l : List α) : (List.range l.length).mapM (fun i => l[i]?) = some l := by
  induction l with
  | nil => rfl
  | cons a l ih =>
    have hshift : (fun i => (a :: l)[i]?) ∘ Nat.succ = fun i => l[i]? := by
      funext i
      simp
    rw [List.length_cons, List.range_succ_eq_map, List.mapM_cons, List.mapM_map, hshift, ih]
    rfl

omit [DecidableEq κ] in
theorem exists_of_mapM {f : κ → Option α} {l : List κ} {as : List α} (h : l.mapM f = some as) :
    ∀ x ∈ l, ∃ a, f x = some a := by
  induction l generalizing as with
  | nil => simp
  | cons y l ih =>
    rw [List.mapM_cons] at h
    obtain ⟨a, ha, h⟩ := Option.bind_eq_some_iff.mp h
    obtain ⟨as', has, -⟩ := Option.bind_eq_some_iff.mp h
    intro x hx
    rcases List.mem_cons.mp hx with rfl | hx
    · exact ⟨a, ha⟩
    · exact ih has x hx

end SimpleRpc.Lib
