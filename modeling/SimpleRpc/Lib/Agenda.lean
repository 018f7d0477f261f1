import Mathlib.Data.List.Count
import Mathlib.Data.List.Sort
import SimpleRpc.Lib.Machine

/-!
# Agendas

Items of type `α` are entered with a key, in the order of a relation on the entries; the first
entry is run or dropped. The relation is the priority of a queue.

## Main results

- `Ordered.step`, `Ordered.first`: the entries stay in order, so what is run comes before all others
- `amount_step`: an item is in the agenda or was run, as often as it was entered and not dropped
-/

namespace SimpleRpc.Lib

/-- The entries, and the items that were run. -/
structure Agenda (κ α : Type*) where
  entries : List (κ × α)
  done : List α

/-- What can happen to an entry. -/
inductive AgendaOp (κ α : Type*) where
  | add (e : κ × α)
  | run (e : κ × α)
  | drop (e : κ × α)

namespace Agenda

variable {κ α : Type*}

/-- The first entry is run or dropped. -/
def Guard (a : Agenda κ α) : AgendaOp κ α → Prop
  | .add _ => True
  | .run e | .drop e => a.entries.head? = some e

section Order

variable (r : κ × α → κ × α → Prop) [DecidableRel r]

/-- The entries afterwards. -/
def effect (a : Agenda κ α) : AgendaOp κ α → Agenda κ α
  | .add e => { a with entries := a.entries.orderedInsert r e }
  | .run e => ⟨a.entries.tail, a.done ++ [e.2]⟩
  | .drop _ => { a with entries := a.entries.tail }

/-- One step. -/
abbrev Next : Agenda κ α → AgendaOp κ α → Agenda κ α → Prop := Guarded Guard (effect r)

omit [DecidableRel r] in
/-- The entries are in the order of the relation. -/
def Ordered (a : Agenda κ α) : Prop := a.entries.Pairwise r

variable {r}

/-- The entries stay in order. -/
theorem Ordered.step [Std.Total r] [IsTrans _ r] {a b : Agenda κ α} {op : AgendaOp κ α}
    (ha : a.Ordered r) (hnext : a.Next r op b) : b.Ordered r := by
  obtain ⟨-, rfl⟩ := hnext
  cases op with
  | add e => exact List.Pairwise.orderedInsert e a.entries ha
  | run e => exact List.Pairwise.tail ha
  | drop e => exact List.Pairwise.tail ha

omit [DecidableRel r] in
/-- The first entry comes before all entries. -/
theorem Ordered.first [Std.Refl r] {a : Agenda κ α} {e : κ × α} (ha : a.Ordered r)
    (hfirst : a.entries.head? = some e) : ∀ e' ∈ a.entries, r e e' := by
  have hcons : a.entries = e :: a.entries.tail := List.eq_cons_of_mem_head? hfirst
  intro e' he'
  rw [Ordered, hcons] at ha
  rw [hcons] at he'
  rcases List.mem_cons.mp he' with heq | hrest
  · rw [heq]
    exact Std.Refl.refl e
  · exact (List.pairwise_cons.mp ha).1 e' hrest

end Order

/-! ## Conservation -/

variable [BEq α]

/-- How often an item is in the agenda or was run. -/
def amount (a : Agenda κ α) (x : α) : Nat := (a.entries.map Prod.snd).count x + a.done.count x

/-- How often a step enters the item. -/
def adds (x : α) : AgendaOp κ α → Nat
  | .add e => [e.2].count x
  | _ => 0

/-- How often a step drops it. -/
def drops (x : α) : AgendaOp κ α → Nat
  | .drop e => [e.2].count x
  | _ => 0

/-- **Conservation**: a step changes the amount of an item by what it enters and what it drops. -/
theorem amount_step {r : κ × α → κ × α → Prop} [DecidableRel r] {a b : Agenda κ α}
    {op : AgendaOp κ α} (hnext : a.Next r op b) (x : α) :
    b.amount x + drops x op = a.amount x + adds x op := by
  obtain ⟨hguard, rfl⟩ := hnext
  -- the first entry, taken off
  have htail : ∀ e, a.entries.head? = some e →
      (a.entries.map Prod.snd).count x = (a.entries.tail.map Prod.snd).count x + [e.2].count x := by
    intro e hfirst
    have hcons : a.entries = e :: a.entries.tail := List.eq_cons_of_mem_head? hfirst
    conv_lhs => rw [hcons]
    rw [List.map_cons, ← List.singleton_append, List.count_append, Nat.add_comm]
  cases op with
  | add e =>
    have hperm := ((List.perm_orderedInsert r e a.entries).map Prod.snd).count_eq x
    rw [List.map_cons, ← List.singleton_append, List.count_append] at hperm
    simp only [amount, effect, adds, drops, hperm]
    omega
  | run e =>
    have := htail e hguard
    simp only [amount, effect, adds, drops, List.count_append]
    omega
  | drop e =>
    have := htail e hguard
    simp only [amount, effect, adds, drops]
    omega

/-- A step, or none, that neither enters nor drops an item keeps its amount. -/
theorem amount_of_stutter {r : κ × α → κ × α → Prop} [DecidableRel r] {a b : Agenda κ α}
    {op : Option (AgendaOp κ α)} (hstep : Stutter (Next r) a op b) (x : α)
    (hop : ∀ o, op = some o → adds x o = 0 ∧ drops x o = 0) : b.amount x = a.amount x := by
  cases op with
  | none => rw [hstep]
  | some o =>
    obtain ⟨hadds, hdrops⟩ := hop o rfl
    have hamount := amount_step hstep x
    omega

/-- What is not in the agenda was run, as often as there is of it. -/
theorem amount_eq_done [LawfulBEq α] {a : Agenda κ α} {x : α} (h : ∀ k, (k, x) ∉ a.entries) :
    a.amount x = a.done.count x := by
  have hnone : (a.entries.map Prod.snd).count x = 0 := by
    apply List.count_eq_zero.mpr
    intro hmem
    obtain ⟨e, he, rfl⟩ := List.mem_map.mp hmem
    exact h e.1 he
  rw [amount, hnone, Nat.zero_add]

end Agenda

end SimpleRpc.Lib
