import Mathlib.Data.List.Nodup
import Mathlib.Logic.Function.Basic
import Mathlib.Data.Finset.Card
import Mathlib.Data.Finset.Range

/-!
# Singly Linked Queues with a Head and a Tail Pointer

A queue of nodes in a store, reached through a `head` and a `tail` pointer. The operations
are the pointer assignments a C++ program makes; each one fails (`none`) when it follows a
null or a dangling pointer.

## Layers

- **Pointers**: `LinkedQueue` and its operations `pushFirst`, `pushBack`, `popHead`,
  `setHead`, `setTail`
- **Lists**: `Rep q xs` says that `q` represents the list `xs`; every operation gets one
  specification in terms of `xs`
- **Reading back**: `nodes` walks the pointers from `head`; on a represented queue it gives
  exactly the list (`Rep.map_nodes`)
-/

namespace SimpleRpc.Lib

/-- A node: a payload and the pointer to the next node. -/
structure Node (α : Type*) where
  val : α
  next : Option Nat

/-- A store of nodes with the two pointers that reach them. `fresh` is the next unused
    address. -/
structure LinkedQueue (α : Type*) where
  store : Nat → Option (Node α)
  fresh : Nat
  head : Option Nat
  tail : Option Nat

namespace LinkedQueue

variable {α : Type*}

/-! ## Pointer operations -/

/-- No node, both pointers null. -/
def empty : LinkedQueue α := ⟨fun _ => none, 0, none, none⟩

/-- `head->val` -/
def headVal (q : LinkedQueue α) : Option α :=
  (q.head.bind q.store).map Node.val

/-- `tail->val` -/
def tailVal (q : LinkedQueue α) : Option α :=
  (q.tail.bind q.store).map Node.val

/-- `tail->next` -/
def tailNext (q : LinkedQueue α) : Option (Option Nat) :=
  (q.tail.bind q.store).map Node.next

/-- `head->val = v` -/
def setHead (q : LinkedQueue α) (v : α) : Option (LinkedQueue α) :=
  q.head.bind fun p => (q.store p).map fun n =>
    { q with store := Function.update q.store p (some { n with val := v }) }

/-- `tail->val = v` -/
def setTail (q : LinkedQueue α) (v : α) : Option (LinkedQueue α) :=
  q.tail.bind fun p => (q.store p).map fun n =>
    { q with store := Function.update q.store p (some { n with val := v }) }

/-- `head = new node(v); tail = head` -/
def pushFirst (q : LinkedQueue α) (v : α) : LinkedQueue α where
  store := Function.update q.store q.fresh (some ⟨v, none⟩)
  fresh := q.fresh + 1
  head := some q.fresh
  tail := some q.fresh

/-- `tail->next = new node(v); tail = tail->next` -/
def pushBack (q : LinkedQueue α) (v : α) : Option (LinkedQueue α) :=
  q.tail.bind fun p => (q.store p).map fun n =>
    { store := Function.update (Function.update q.store p (some { n with next := some q.fresh }))
        q.fresh (some ⟨v, none⟩)
      fresh := q.fresh + 1
      head := q.head
      tail := some q.fresh }

/-- `if (tail == head) tail = null; node = head; head = head->next; delete node` -/
def popHead (q : LinkedQueue α) : Option (LinkedQueue α) :=
  q.head.bind fun p => (q.store p).map fun n =>
    { q with
      store := Function.update q.store p none
      head := n.next
      tail := if q.tail = some p then none else q.tail }

/-- Follow `next` from `p`, at most `fuel` nodes. -/
def walk (store : Nat → Option (Node α)) : Nat → Option Nat → List (Nat × α)
  | 0, _ => []
  | _ + 1, none => []
  | fuel + 1, some p =>
    match store p with
    | none => []
    | some n => (p, n.val) :: walk store fuel n.next

/-- The nodes reached from `head`, with their addresses. -/
def nodes (q : LinkedQueue α) : List (Nat × α) := walk q.store q.fresh q.head

/-- The payloads reached from `head`. -/
def toList (q : LinkedQueue α) : List α := q.nodes.map Prod.snd

/-! ## Represented lists -/

/-- The nodes `ns` are chained from `p`, the last one ending in null. -/
def Chain (store : Nat → Option (Node α)) : Option Nat → List (Nat × α) → Prop
  | p, [] => p = none
  | p, (a, v) :: ns => p = some a ∧ ∃ nxt, store a = some ⟨v, nxt⟩ ∧ Chain store nxt ns

/-- `q` holds exactly the nodes `ns`: chained from `head`, the last one at `tail`. -/
structure Holds (q : LinkedQueue α) (ns : List (Nat × α)) : Prop where
  chain : Chain q.store q.head ns
  tail_eq : q.tail = ns.getLast?.map Prod.fst
  nodup : (ns.map Prod.fst).Nodup
  bound : ∀ n ∈ ns, n.1 < q.fresh

/-- `q` represents the list `xs`. -/
def Rep (q : LinkedQueue α) (xs : List α) : Prop :=
  ∃ ns, q.Holds ns ∧ ns.map Prod.snd = xs

/-! ### Frame lemmas for chains -/

/-- A chain only reads its own addresses. -/
theorem Chain.congr {s s' : Nat → Option (Node α)} {ns : List (Nat × α)} {p : Option Nat}
    (h : Chain s p ns) (heq : ∀ n ∈ ns, s' n.1 = s n.1) : Chain s' p ns := by
  induction ns generalizing p with
  | nil => exact h
  | cons n ns ih =>
    obtain ⟨hp, nxt, hs, hrest⟩ := h
    refine ⟨hp, nxt, ?_, ih hrest fun m hm => heq m (List.mem_cons_of_mem _ hm)⟩
    rw [heq n (List.mem_cons_self ..)]
    exact hs

/-- Splitting a chain before its last node. -/
theorem chain_append_singleton {s : Nat → Option (Node α)} {ns : List (Nat × α)} {p : Option Nat}
    {a : Nat} {v : α} (h : Chain s p (ns ++ [(a, v)])) : s a = some ⟨v, none⟩ := by
  induction ns generalizing p with
  | nil =>
    obtain ⟨-, nxt, hs, hnil⟩ := h
    rw [hs, show nxt = none from hnil]
  | cons n ns ih =>
    obtain ⟨-, _, -, hrest⟩ := h
    exact ih hrest

/-- Replacing the last node of a chain by a chain `ms` that starts at the same address. -/
theorem chain_replace_last {s s' : Nat → Option (Node α)} {ns ms : List (Nat × α)} {p : Option Nat}
    {a : Nat} {v : α} (h : Chain s p (ns ++ [(a, v)])) (heq : ∀ n ∈ ns, s' n.1 = s n.1)
    (hms : Chain s' (some a) ms) : Chain s' p (ns ++ ms) := by
  induction ns generalizing p with
  | nil =>
    obtain ⟨hp, -⟩ := h
    rw [hp]
    exact hms
  | cons n ns ih =>
    obtain ⟨hp, nxt, hs, hrest⟩ := h
    refine ⟨hp, nxt, ?_, ih hrest fun m hm => heq m (List.mem_cons_of_mem _ hm)⟩
    rw [heq n (List.mem_cons_self ..)]
    exact hs

/-! ### Specifications of the operations -/

theorem rep_empty : (empty : LinkedQueue α).Rep [] :=
  ⟨[], ⟨rfl, rfl, List.nodup_nil, fun _ h => nomatch h⟩, rfl⟩

/-- A represented non-empty list: the head node, read back. -/
private theorem Rep.cons_inv {q : LinkedQueue α} {x : α} {xs : List α} (h : q.Rep (x :: xs)) :
    ∃ a ns, q.Holds ((a, x) :: ns) ∧ ns.map Prod.snd = xs := by
  obtain ⟨ns, hq, hmap⟩ := h
  cases ns with
  | nil => simp at hmap
  | cons n ns =>
    obtain ⟨a, v⟩ := n
    simp only [List.map_cons, List.cons.injEq] at hmap
    obtain ⟨rfl, hxs⟩ := hmap
    exact ⟨a, ns, hq, hxs⟩

/-- A represented non-empty list: the tail node, read back. -/
private theorem Rep.concat_inv {q : LinkedQueue α} {x : α} {xs : List α} (h : q.Rep (xs ++ [x])) :
    ∃ a ns, q.Holds (ns ++ [(a, x)]) ∧ ns.map Prod.snd = xs := by
  obtain ⟨ns, hq, hmap⟩ := h
  obtain ⟨ms, m, rfl, hms, hm⟩ := List.map_eq_append_iff.mp hmap
  obtain ⟨a, rest, rfl, hv, hrest⟩ := List.map_eq_cons_iff.mp hm
  obtain rfl : rest = [] := List.map_eq_nil_iff.mp hrest
  obtain ⟨a, v⟩ := a
  obtain rfl : v = x := hv
  exact ⟨a, ms, hq, hms⟩

theorem Rep.head_eq_none {q : LinkedQueue α} {xs : List α} (h : q.Rep xs) :
    q.head = none ↔ xs = [] := by
  cases xs with
  | nil =>
    obtain ⟨ns, hq, hmap⟩ := h
    obtain rfl := List.map_eq_nil_iff.mp hmap
    exact ⟨fun _ => rfl, fun _ => hq.chain⟩
  | cons x xs =>
    obtain ⟨a, ns, hq, -⟩ := h.cons_inv
    obtain ⟨hhead, -⟩ := hq.chain
    simp [hhead]

theorem Rep.headVal {q : LinkedQueue α} {x : α} {xs : List α} (h : q.Rep (x :: xs)) :
    q.headVal = some x := by
  obtain ⟨a, ns, hq, -⟩ := h.cons_inv
  obtain ⟨hhead, nxt, hs, -⟩ := hq.chain
  simp [LinkedQueue.headVal, hhead, hs]

theorem Rep.tailVal {q : LinkedQueue α} {x : α} {xs : List α} (h : q.Rep (xs ++ [x])) :
    q.tailVal = some x := by
  obtain ⟨a, ns, hq, -⟩ := h.concat_inv
  have htail : q.tail = some a := by simp [hq.tail_eq]
  simp [LinkedQueue.tailVal, htail, chain_append_singleton hq.chain]

theorem Rep.tailNext {q : LinkedQueue α} {x : α} {xs : List α} (h : q.Rep (xs ++ [x])) :
    q.tailNext = some none := by
  obtain ⟨a, ns, hq, -⟩ := h.concat_inv
  have htail : q.tail = some a := by simp [hq.tail_eq]
  simp [LinkedQueue.tailNext, htail, chain_append_singleton hq.chain]

theorem Rep.setHead {q : LinkedQueue α} {x : α} {xs : List α} (h : q.Rep (x :: xs)) (y : α) :
    ∃ q', q.setHead y = some q' ∧ q'.Rep (y :: xs) := by
  obtain ⟨a, ns, hq, hxs⟩ := h.cons_inv
  obtain ⟨hhead, nxt, hs, hrest⟩ := hq.chain
  have hnd : a ∉ ns.map Prod.fst := (List.nodup_cons.mp hq.nodup).1
  have hset : q.setHead y =
      some { q with store := Function.update q.store a (some ⟨y, nxt⟩) } := by
    simp [LinkedQueue.setHead, hhead, hs]
  refine ⟨_, hset, (a, y) :: ns, ?_, by simp [hxs]⟩
  refine ⟨⟨hhead, nxt, by simp, hrest.congr ?_⟩, ?_, hq.nodup, ?_⟩
  · intro n hn
    apply Function.update_of_ne
    rintro rfl
    exact hnd (List.mem_map_of_mem hn)
  · rw [hq.tail_eq]
    cases ns <;> simp [List.getLast?_cons_cons]
  · intro n hn
    rcases List.mem_cons.mp hn with rfl | hn
    · exact hq.bound (a, x) (List.mem_cons_self ..)
    · exact hq.bound n (List.mem_cons_of_mem _ hn)

theorem Rep.setTail {q : LinkedQueue α} {x : α} {xs : List α} (h : q.Rep (xs ++ [x])) (y : α) :
    ∃ q', q.setTail y = some q' ∧ q'.Rep (xs ++ [y]) := by
  obtain ⟨a, ns, hq, hxs⟩ := h.concat_inv
  have htail : q.tail = some a := by simp [hq.tail_eq]
  have hs := chain_append_singleton hq.chain
  have hnd : a ∉ ns.map Prod.fst := by
    have := hq.nodup
    simp only [List.map_append, List.map_cons, List.map_nil] at this
    exact fun hmem => (List.nodup_append.mp this).2.2 a hmem a (by simp) rfl
  have hset : q.setTail y =
      some { q with store := Function.update q.store a (some ⟨y, none⟩) } := by
    simp [LinkedQueue.setTail, htail, hs]
  refine ⟨_, hset, ns ++ [(a, y)], ?_, by simp [hxs]⟩
  refine ⟨chain_replace_last hq.chain ?_ ⟨rfl, none, by simp, rfl⟩, by simp [htail], ?_, ?_⟩
  · -- the nodes in front are as before
    intro n hn
    apply Function.update_of_ne
    rintro rfl
    exact hnd (List.mem_map_of_mem hn)
  · simpa using hq.nodup
  · -- all addresses lie below the next fresh one
    intro n hn
    rcases List.mem_append.mp hn with hn | hn
    · exact hq.bound n (List.mem_append_left _ hn)
    · obtain rfl := List.mem_singleton.mp hn
      exact hq.bound (a, x) (by simp)

theorem Rep.pushFirst {q : LinkedQueue α} (v : α) : (q.pushFirst v).Rep [v] :=
  ⟨[(q.fresh, v)], ⟨⟨rfl, none, by simp [LinkedQueue.pushFirst], rfl⟩, rfl, by simp,
    by simp [LinkedQueue.pushFirst]⟩, rfl⟩

theorem Rep.pushBack {q : LinkedQueue α} {x : α} {xs : List α} (h : q.Rep (xs ++ [x])) (v : α) :
    ∃ q', q.pushBack v = some q' ∧ q'.Rep (xs ++ [x] ++ [v]) := by
  obtain ⟨a, ns, hq, hxs⟩ := h.concat_inv
  have htail : q.tail = some a := by simp [hq.tail_eq]
  have hs := chain_append_singleton hq.chain
  have hnd : a ∉ ns.map Prod.fst := by
    have := hq.nodup
    simp only [List.map_append, List.map_cons, List.map_nil] at this
    exact fun hmem => (List.nodup_append.mp this).2.2 a hmem a (by simp) rfl
  have ha : a < q.fresh := hq.bound (a, x) (by simp)
  have hfresh : q.fresh ∉ (ns ++ [(a, x)]).map Prod.fst := by
    intro hmem
    obtain ⟨n, hn, heq⟩ := List.mem_map.mp hmem
    have := hq.bound n hn
    omega
  -- the old tail is linked to a node that was not in use
  have hpush : q.pushBack v = some
      { store := Function.update (Function.update q.store a (some ⟨x, some q.fresh⟩)) q.fresh
          (some ⟨v, none⟩)
        fresh := q.fresh + 1
        head := q.head
        tail := some q.fresh } := by
    simp [LinkedQueue.pushBack, htail, hs]
  refine ⟨_, hpush, ns ++ [(a, x), (q.fresh, v)], ?_, by simp [hxs]⟩
  refine ⟨chain_replace_last hq.chain ?_ ⟨rfl, some q.fresh, ?_, rfl, none, by simp, rfl⟩, by simp,
    ?_, ?_⟩
  · -- the nodes in front are as before
    intro n hn
    have hne : n.1 ≠ q.fresh := by
      have := hq.bound n (List.mem_append_left _ hn)
      omega
    have hna : n.1 ≠ a := by
      rintro rfl
      exact hnd (List.mem_map_of_mem hn)
    simp [Function.update_of_ne hne, Function.update_of_ne hna]
  · have hne : a ≠ q.fresh := by omega
    simp [Function.update_of_ne hne]
  · -- the fresh address is not in use
    have := List.nodup_append.mpr ⟨hq.nodup, List.nodup_singleton q.fresh, ?_⟩
    · simpa using this
    · rintro b hb c hc rfl
      obtain rfl := List.mem_singleton.mp hc
      exact hfresh hb
  · -- all addresses lie below the next fresh one
    intro n hn
    simp only [List.mem_append, List.mem_cons, List.not_mem_nil, or_false] at hn
    rcases hn with hn | rfl | rfl
    · have := hq.bound n (List.mem_append_left _ hn)
      simp only
      omega
    · simp only
      omega
    · simp

theorem Rep.popHead {q : LinkedQueue α} {x : α} {xs : List α} (h : q.Rep (x :: xs)) :
    ∃ q', q.popHead = some q' ∧ q'.Rep xs := by
  obtain ⟨a, ns, hq, hxs⟩ := h.cons_inv
  obtain ⟨hhead, nxt, hs, hrest⟩ := hq.chain
  have hnodup := (List.nodup_cons.mp hq.nodup).2
  have hnd : a ∉ ns.map Prod.fst := (List.nodup_cons.mp hq.nodup).1
  have hpop : q.popHead = some
      { q with
        store := Function.update q.store a none
        head := nxt
        tail := if q.tail = some a then none else q.tail } := by
    simp [LinkedQueue.popHead, hhead, hs]
  refine ⟨_, hpop, ns, ?_, hxs⟩
  refine ⟨hrest.congr ?_, ?_, hnodup, fun n hn => hq.bound n (List.mem_cons_of_mem _ hn)⟩
  · -- the nodes behind are as before
    intro n hn
    apply Function.update_of_ne
    rintro rfl
    exact hnd (List.mem_map_of_mem hn)
  · -- `tail` is reset exactly when the deleted node was the last one.
    cases ns using List.reverseRecOn with
    | nil => simp [hq.tail_eq]
    | append_singleton ns b =>
      have htail : q.tail = some b.1 := by
        rw [hq.tail_eq, ← List.cons_append, List.getLast?_concat, Option.map_some]
      have hne : b.1 ≠ a := by
        rintro rfl
        exact hnd (List.mem_map.mpr ⟨b, by simp, rfl⟩)
      simp [htail, hne]

/-! ### Reading back -/

private theorem walk_of_chain {s : Nat → Option (Node α)} {ns : List (Nat × α)} {p : Option Nat}
    (h : Chain s p ns) (fuel : Nat) (hfuel : ns.length ≤ fuel) : walk s fuel p = ns := by
  induction ns generalizing p fuel with
  | nil =>
    obtain rfl : p = none := h
    cases fuel <;> rfl
  | cons n ns ih =>
    obtain ⟨rfl, nxt, hs, hrest⟩ := h
    obtain ⟨fuel, rfl⟩ : ∃ f, fuel = f + 1 := ⟨fuel - 1, by simp at hfuel; omega⟩
    simp only [walk, hs]
    rw [ih hrest fuel (by simpa using hfuel)]

theorem Holds.length_le {q : LinkedQueue α} {ns : List (Nat × α)} (h : q.Holds ns) :
    ns.length ≤ q.fresh := by
  have hsub : (ns.map Prod.fst).toFinset ⊆ Finset.range q.fresh := by
    intro a ha
    obtain ⟨n, hn, rfl⟩ := List.mem_map.mp (List.mem_toFinset.mp ha)
    exact Finset.mem_range.mpr (h.bound n hn)
  have hcard := Finset.card_le_card hsub
  rwa [List.toFinset_card_of_nodup h.nodup, Finset.card_range, List.length_map] at hcard

/-- Walking from `head` visits exactly the held nodes. -/
theorem Holds.nodes_eq {q : LinkedQueue α} {ns : List (Nat × α)} (h : q.Holds ns) :
    q.nodes = ns :=
  walk_of_chain h.chain _ h.length_le

theorem Rep.toList_eq {q : LinkedQueue α} {xs : List α} (h : q.Rep xs) : q.toList = xs := by
  obtain ⟨ns, hq, hmap⟩ := h
  rw [toList, hq.nodes_eq, hmap]

/-- The tail pointer of a represented queue is the last node reached from `head`. -/
theorem Rep.tail_eq {q : LinkedQueue α} {xs : List α} (h : q.Rep xs) :
    q.tail = q.nodes.getLast?.map Prod.fst := by
  obtain ⟨ns, hq, -⟩ := h
  rw [hq.nodes_eq]
  exact hq.tail_eq

theorem Rep.tail_eq_none {q : LinkedQueue α} {xs : List α} (h : q.Rep xs) :
    q.tail = none ↔ q.head = none := by
  rw [h.head_eq_none]
  obtain ⟨ns, hq, rfl⟩ := h
  rw [hq.tail_eq, Option.map_eq_none_iff, List.getLast?_eq_none_iff, List.map_eq_nil_iff]

end LinkedQueue

end SimpleRpc.Lib
