import Mathlib.Algebra.BigOperators.Group.Finset.Piecewise
import Mathlib.Data.List.Count
import SimpleRpc.Lib.Machine

/-!
# Work Queues

Items enter the backs of a family of queues; takers take them, one at a time, from the fronts, and
finish or discard what they have in their hands. The queues are named by `κ`, the takers by `τ`.

## Main results

- `Fifo.step`: the items leave a queue in the order in which they have entered it
- `amount_step`, `amount_eq_done`: an item that was put somewhere is in a queue, in a hand or finished,
  as often as it was put and not discarded
-/

namespace SimpleRpc.Lib

/-- Queues, hands, and what has become of the items. -/
structure WorkQueues (κ τ α : Type*) where
  queue : κ → List α
  hand : τ → Option α
  done : List α
  /-- what was put into a queue so far -/
  entered : κ → List α
  /-- what was taken from it, and by whom -/
  taken : κ → List (τ × α)

/-- What can happen to an item. -/
inductive WorkOp (κ τ α : Type*) where
  | put (j : κ) (x : α)
  | take (t : τ) (j : κ) (x : α)
  | finish (t : τ) (x : α)
  | discard (t : τ) (x : α)

namespace WorkQueues

variable {κ τ α : Type*}

/-- An item is taken from the front of a queue, by a taker with nothing in its hand. -/
def Guard (b : WorkQueues κ τ α) : WorkOp κ τ α → Prop
  | .put _ _ => True
  | .take t j x => (b.queue j).head? = some x ∧ b.hand t = none
  | .finish t x | .discard t x => b.hand t = some x

variable [DecidableEq κ] [DecidableEq τ]

/-- The queues and the hands afterwards. -/
def effect (b : WorkQueues κ τ α) : WorkOp κ τ α → WorkQueues κ τ α
  | .put j x =>
    { b with queue := Function.update b.queue j (b.queue j ++ [x])
             entered := Function.update b.entered j (b.entered j ++ [x]) }
  | .take t j x =>
    { b with queue := Function.update b.queue j (b.queue j).tail
             hand := Function.update b.hand t (some x)
             taken := Function.update b.taken j (b.taken j ++ [(t, x)]) }
  | .finish t x => { b with hand := Function.update b.hand t none, done := b.done ++ [x] }
  | .discard t _ => { b with hand := Function.update b.hand t none }

/-- One step. -/
abbrev Next : WorkQueues κ τ α → WorkOp κ τ α → WorkQueues κ τ α → Prop := Guarded Guard effect

/-! ## Order -/

/-- What has entered a queue has left it, in this order, or is still there. -/
def Fifo (b : WorkQueues κ τ α) : Prop := ∀ j, b.entered j = (b.taken j).map Prod.snd ++ b.queue j

/-- **First in, first out** -/
theorem Fifo.step {b b' : WorkQueues κ τ α} {op : WorkOp κ τ α} (hb : b.Fifo)
    (hnext : Next b op b') : b'.Fifo := by
  obtain ⟨hguard, rfl⟩ := hnext
  intro k
  cases op with
  | put j x =>
    by_cases hkj : k = j
    · subst hkj
      simp [effect, hb k]
    · simp [effect, Function.update_of_ne hkj, hb k]
  | take t j x =>
    by_cases hkj : k = j
    · subst hkj
      have hcons : b.queue k = x :: (b.queue k).tail := List.eq_cons_of_mem_head? hguard.1
      simp only [effect, Function.update_self, List.map_append, List.map_singleton,
        List.append_assoc, List.singleton_append, ← hcons]
      exact hb k
    · simp [effect, Function.update_of_ne hkj, hb k]
  | finish t x => exact hb k
  | discard t x => exact hb k

/-! ## Conservation -/

/-- A sum over a family of which one member changes. -/
theorem sum_update {κ β : Type*} [Fintype κ] [DecidableEq κ] (f : κ → β) (j : κ) (v : β)
    (g : β → Nat) : ∑ i, g (Function.update f j v i) + g (f j) = ∑ i, g (f i) + g v := by
  have hrest : ∑ i ∈ Finset.univ.erase j, g (Function.update f j v i) =
      ∑ i ∈ Finset.univ.erase j, g (f i) := by
    apply Finset.sum_congr rfl
    intro i hi
    rw [Function.update_of_ne (Finset.ne_of_mem_erase hi)]
  have hafter := Finset.add_sum_erase Finset.univ (fun i => g (Function.update f j v i))
    (Finset.mem_univ j)
  have hbefore := Finset.add_sum_erase Finset.univ (fun i => g (f i)) (Finset.mem_univ j)
  simp only [Function.update_self] at hafter
  omega

variable [Fintype κ] [Fintype τ] [BEq α]

/-- How often an item is in a queue, in a hand or finished. -/
def amount (b : WorkQueues κ τ α) (x : α) : Nat :=
  ∑ j, (b.queue j).count x + ∑ t, (b.hand t).toList.count x + b.done.count x

omit [DecidableEq κ] [DecidableEq τ] in
/-- An item that is in no queue and in no hand is finished, as often as there is of it. -/
theorem amount_eq_done [LawfulBEq α] {b : WorkQueues κ τ α} {x : α} (hqueue : ∀ j, x ∉ b.queue j)
    (hhand : ∀ t, b.hand t ≠ some x) : b.amount x = b.done.count x := by
  have hqueues : ∑ j, (b.queue j).count x = 0 :=
    Finset.sum_eq_zero fun j _ => List.count_eq_zero.mpr (hqueue j)
  have hhands : ∑ t, (b.hand t).toList.count x = 0 := by
    refine Finset.sum_eq_zero fun t _ => List.count_eq_zero.mpr fun hmem => ?_
    exact hhand t (Option.mem_toList.mp hmem)
  rw [amount, hqueues, hhands, Nat.zero_add]

omit [DecidableEq κ] [DecidableEq τ] in
theorem done_le_amount (b : WorkQueues κ τ α) (x : α) : b.done.count x ≤ b.amount x := by
  rw [amount]
  omega

/-- How often a step puts an item. -/
def puts (x : α) : WorkOp κ τ α → Nat
  | .put _ y => [y].count x
  | _ => 0

/-- How often a step discards an item. -/
def discards (x : α) : WorkOp κ τ α → Nat
  | .discard _ y => [y].count x
  | _ => 0

/-- **Conservation**: a step changes the amount of an item by what it puts and discards. -/
theorem amount_step {b b' : WorkQueues κ τ α} {op : WorkOp κ τ α} (hnext : Next b op b') (x : α) :
    b'.amount x + discards x op = b.amount x + puts x op := by
  obtain ⟨hguard, rfl⟩ := hnext
  cases op with
  | put j y =>
    -- the queue grows by the item
    have hqueue := sum_update b.queue j (b.queue j ++ [y]) (List.count x)
    rw [List.count_append] at hqueue
    show (_ + _ + _) + 0 = (_ + _ + _) + [y].count x
    simp only [effect]
    omega
  | take t j y =>
    -- from the front of the queue into the hand
    have hcons : b.queue j = y :: (b.queue j).tail := List.eq_cons_of_mem_head? hguard.1
    have hqueue := sum_update b.queue j (b.queue j).tail (List.count x)
    have hfront : (b.queue j).count x = [y].count x + (b.queue j).tail.count x := by
      conv_lhs => rw [hcons]
      show ([y] ++ (b.queue j).tail).count x = _
      rw [List.count_append]
    have hhand := sum_update b.hand t (some y) fun o => o.toList.count x
    rw [hguard.2] at hhand
    show (_ + _ + _) + 0 = (_ + _ + _) + 0
    simp only [effect, Option.toList_none, Option.toList_some, List.count_nil] at hhand ⊢
    omega
  | finish t y =>
    -- from the hand to the finished ones
    have hhand := sum_update b.hand t none fun o => o.toList.count x
    have hheld : b.hand t = some y := hguard
    rw [hheld] at hhand
    show (_ + _ + _) + 0 = (_ + _ + _) + 0
    simp only [effect, Option.toList_none, Option.toList_some, List.count_nil,
      List.count_append] at hhand ⊢
    omega
  | discard t y =>
    -- from the hand to nowhere
    have hhand := sum_update b.hand t none fun o => o.toList.count x
    have hheld : b.hand t = some y := hguard
    rw [hheld] at hhand
    show (_ + _ + _) + [y].count x = (_ + _ + _) + 0
    simp only [effect, Option.toList_none, Option.toList_some, List.count_nil] at hhand ⊢
    omega

end WorkQueues

end SimpleRpc.Lib
