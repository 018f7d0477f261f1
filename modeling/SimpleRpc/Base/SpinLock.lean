import Mathlib.Logic.Function.Basic
import Mathlib.Tactic.Common

/-!
# The Spin Lock (`base/threading.cc`, `base/threading.h`)

`SpinLock::lock` looks at the flag, tries to set it, spins for a while, and then tries again and again
with naps in between. `unlock` clears the flag. The threads are those of `ScopedLock`, which unlock
what they have locked.

## Main results

- `SpinLock.Inv`: the flag is set exactly while a thread is between `lock` and `unlock`
- `SpinLock.lock_correct`: under every schedule there is at most one such thread, and when there is
  none, every thread that runs alone for three accesses becomes one

## Model

One access to `locked_` is one step; the nap between two attempts is none.
-/

namespace SimpleRpc.Base

namespace SpinLock

/-- Where a thread is. -/
inductive Place where
  /-- it does not hold the lock and does not want it -/
  | out
  /-- `if (!locked_ ...` -/
  | test
  /-- `... && !__sync_lock_test_and_set(&locked_, true))` -/
  | tryFast
  /-- `while ((wait-- > 0) && locked_)` -/
  | spin (wait : Nat)
  /-- `while (__sync_lock_test_and_set(&locked_, true))` -/
  | trySlow
  /-- `lock` has returned -/
  | inside
  deriving DecidableEq

end SpinLock

/-- `class SpinLock`, and the threads that use it -/
structure SpinLock (τ : Type) where
  locked : Bool
  place : τ → SpinLock.Place

namespace SpinLock

variable {τ : Type}

def init : SpinLock τ := ⟨false, fun _ => .out⟩

variable [DecidableEq τ]

def goto (s : SpinLock τ) (t : τ) (p : Place) : SpinLock τ :=
  { s with place := Function.update s.place t p }

@[simp] theorem goto_self (s : SpinLock τ) (t : τ) (p : Place) : (s.goto t p).place t = p :=
  Function.update_self ..

theorem goto_of_ne (s : SpinLock τ) {t u : τ} (p : Place) (hne : u ≠ t) :
    (s.goto t p).place u = s.place u := Function.update_of_ne hne ..

@[simp] theorem goto_locked (s : SpinLock τ) (t : τ) (p : Place) :
    (s.goto t p).locked = s.locked := rfl

/-- `__sync_lock_test_and_set(&locked_, true)`: the thread has the lock, or goes to `otherwise`. -/
def testAndSet (s : SpinLock τ) (t : τ) (otherwise : Place) : SpinLock τ :=
  if s.locked then s.goto t otherwise else { s.goto t .inside with locked := true }

/-- The next access of a thread: of `lock`, or `unlock` when it has the lock. -/
def step (s : SpinLock τ) (t : τ) : SpinLock τ :=
  match s.place t with
  | .out => s.goto t .test
  | .test => if s.locked then s.goto t (.spin 1000) else s.goto t .tryFast
  | .tryFast => s.testAndSet t (.spin 1000)
  | .spin 0 => s.goto t .trySlow
  | .spin (wait + 1) => if s.locked then s.goto t (.spin wait) else s.goto t .trySlow
  | .trySlow => s.testAndSet t .trySlow
  | .inside => { s.goto t .out with locked := false }

/-- What a schedule leads to. -/
def run (schedule : List τ) : SpinLock τ := schedule.foldl step init

/-! ## Mutual exclusion -/

/-- The flag is set exactly while a thread is inside, and then there is one. -/
structure Inv (s : SpinLock τ) : Prop where
  locked : s.locked = true ↔ ∃ t, s.place t = .inside
  single : ∀ t u, s.place t = .inside → s.place u = .inside → t = u

variable {s : SpinLock τ}

/-- A thread that is not inside goes somewhere outside. -/
theorem Inv.goto (h : s.Inv) {t : τ} {p : Place} (hfrom : s.place t ≠ .inside)
    (hto : p ≠ .inside) : (s.goto t p).Inv := by
  have hsame : ∀ u, (s.goto t p).place u = .inside ↔ s.place u = .inside := by
    intro u
    by_cases hu : u = t
    · rw [hu, goto_self]
      exact ⟨fun hp => absurd hp hto, fun hp => absurd hp hfrom⟩
    · rw [goto_of_ne s p hu]
  constructor
  · rw [goto_locked, h.locked]
    exact exists_congr fun u => (hsame u).symm
  · exact fun u v hu hv => h.single u v ((hsame u).mp hu) ((hsame v).mp hv)

theorem Inv.testAndSet (h : s.Inv) {t : τ} {p : Place} (hfrom : s.place t ≠ .inside)
    (hto : p ≠ .inside) : (s.testAndSet t p).Inv := by
  rw [SpinLock.testAndSet]
  split
  · exact h.goto hfrom hto
  · -- the flag was clear, so that nobody was inside
    rename_i hclear
    have hnone : ∀ u, s.place u ≠ .inside := fun u hu => hclear (h.locked.mpr ⟨u, hu⟩)
    have honly : ∀ u, (s.goto t .inside).place u = .inside → u = t := by
      intro u hu
      by_contra hne
      rw [goto_of_ne s _ hne] at hu
      exact hnone u hu
    constructor
    · exact ⟨fun _ => ⟨t, goto_self s t _⟩, fun _ => rfl⟩
    · exact fun u v hu hv => (honly u hu).trans (honly v hv).symm

theorem Inv.unlock (h : s.Inv) {t : τ} (hinside : s.place t = .inside) :
    ({ s.goto t .out with locked := false } : SpinLock τ).Inv := by
  have hnone : ∀ u, (s.goto t .out).place u ≠ .inside := by
    intro u hu
    by_cases hut : u = t
    · rw [hut, goto_self] at hu
      cases hu
    · rw [goto_of_ne s _ hut] at hu
      exact hut (h.single u t hu hinside)
  constructor
  · exact ⟨nofun, fun ⟨u, hu⟩ => absurd hu (hnone u)⟩
  · exact fun u _ hu => absurd hu (hnone u)

theorem Inv.step (h : s.Inv) (t : τ) : (s.step t).Inv := by
  rw [SpinLock.step]
  cases hplace : s.place t with
  | out => exact h.goto (by rw [hplace]; nofun) nofun
  | test =>
    dsimp only
    split
    · exact h.goto (by rw [hplace]; nofun) nofun
    · exact h.goto (by rw [hplace]; nofun) nofun
  | tryFast => exact h.testAndSet (by rw [hplace]; nofun) nofun
  | spin wait =>
    cases wait with
    | zero => exact h.goto (by rw [hplace]; nofun) nofun
    | succ wait =>
      dsimp only
      split
      · exact h.goto (by rw [hplace]; nofun) nofun
      · exact h.goto (by rw [hplace]; nofun) nofun
  | trySlow => exact h.testAndSet (by rw [hplace]; nofun) nofun
  | inside => exact h.unlock hplace

omit [DecidableEq τ] in
theorem inv_init : (init : SpinLock τ).Inv where
  locked := ⟨nofun, fun ⟨_, h⟩ => by cases h⟩
  single := fun _ _ h => by cases h

theorem inv_run (schedule : List τ) : (run schedule).Inv := by
  have hfold : ∀ s : SpinLock τ, s.Inv → (schedule.foldl SpinLock.step s).Inv := by
    induction schedule with
    | nil => exact fun s hs => hs
    | cons t schedule ih => exact fun s hs => ih _ (hs.step t)
  exact hfold init inv_init

/-! ## Progress -/

theorem testAndSet_free (hfree : s.locked = false) (t : τ) (p : Place) :
    (s.testAndSet t p).place t = .inside := by
  rw [testAndSet, hfree]
  exact goto_self s t _

/-- A free lock is taken by a thread that runs alone. -/
theorem takes_free (hfree : s.locked = false) (t : τ) :
    ∃ k ≤ 3, ((List.replicate k t).foldl step s).place t = .inside := by
  -- an attempt succeeds; before it, at most a test and the call
  have hattempt : ∀ s' : SpinLock τ, s'.locked = false →
      s'.place t = .tryFast ∨ s'.place t = .trySlow → (s'.step t).place t = .inside := by
    intro s' hfree' hplace
    rw [SpinLock.step]
    obtain hplace | hplace := hplace
    · rw [hplace]
      exact testAndSet_free hfree' t _
    · rw [hplace]
      exact testAndSet_free hfree' t _
  have htest : ∀ s' : SpinLock τ, s'.locked = false → s'.place t = .test →
      s'.step t = s'.goto t .tryFast := by
    intro s' hfree' hplace
    rw [SpinLock.step, hplace]
    exact if_neg (by rw [hfree']; exact Bool.false_ne_true)
  cases hplace : s.place t with
  -- it is inside already
  | inside => exact ⟨0, by omega, hplace⟩
  | tryFast => exact ⟨1, by omega, hattempt s hfree (.inl hplace)⟩
  | trySlow => exact ⟨1, by omega, hattempt s hfree (.inr hplace)⟩
  | test =>
    -- the test finds the lock free, then the attempt
    refine ⟨2, by omega, ?_⟩
    change ((s.step t).step t).place t = .inside
    rw [htest s hfree hplace]
    exact hattempt _ hfree (.inl (goto_self ..))
  | spin wait =>
    -- the loop ends, then the attempt
    refine ⟨2, by omega, ?_⟩
    change ((s.step t).step t).place t = .inside
    have hleaves : s.step t = s.goto t .trySlow := by
      rw [SpinLock.step, hplace]
      cases wait with
      | zero => rfl
      | succ wait => exact if_neg (by rw [hfree]; exact Bool.false_ne_true)
    rw [hleaves]
    exact hattempt _ hfree (.inr (goto_self ..))
  | out =>
    -- the call comes first
    refine ⟨3, by omega, ?_⟩
    change (((s.step t).step t).step t).place t = .inside
    have hcall : s.step t = s.goto t .test := by rw [SpinLock.step, hplace]
    rw [hcall, htest (s.goto t .test) hfree (goto_self ..)]
    exact hattempt _ hfree (.inl (goto_self ..))

/-- **The lock**: under every schedule at most one thread is between `lock` and `unlock`; and when
    there is none, every thread takes the lock if it runs alone for three accesses. -/
theorem lock_correct (schedule : List τ) :
    (∀ t u, (run schedule).place t = .inside → (run schedule).place u = .inside → t = u) ∧
      ((∀ t, (run schedule).place t ≠ .inside) → ∀ t, ∃ k ≤ 3,
        (run (schedule ++ List.replicate k t)).place t = .inside) := by
  have hinv := inv_run schedule
  refine ⟨hinv.single, fun hnone t => ?_⟩
  have hfree : (run schedule).locked = false := by
    rw [← Bool.not_eq_true, hinv.locked]
    exact fun ⟨u, hu⟩ => hnone u hu
  obtain ⟨k, hk, hinside⟩ := takes_free hfree t
  exact ⟨k, hk, by rwa [run, List.foldl_append]⟩

end SpinLock

end SimpleRpc.Base
