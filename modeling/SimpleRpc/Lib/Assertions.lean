/-!
# Programs with Assertions

A program that can fail with an error in `ε`, and the same program with assertions in it: it fails
as before, or an assertion fails. The rules below show, going through both programs side by side,
that the one with the assertions does what the other one does.

## Main results

- `Checked.lift_bind`: the rule for a computation and what follows it
- `Checked.assert_bind`, `Checked.assert_bind_not`: an assertion that holds is not there, one that
  does not hold ends the program
- `Checked.lift_ne_assertFailed`: a program without assertions fails none
-/

namespace SimpleRpc.Lib

/-- What ends a program with assertions. -/
inductive Abort (ε : Type) where
  | fault (e : ε)
  | assertFailed
  deriving DecidableEq

/-- A program with assertions. -/
abbrev Checked (ε α : Type) := Except (Abort ε) α

namespace Checked

variable {ε α β : Type}

/-- A program without assertions, as a part of one with assertions. -/
def lift : Except ε α → Checked ε α
  | .ok a => .ok a
  | .error e => .error (.fault e)

/-- `assert(cond)` -/
def assert (cond : Prop) [Decidable cond] : Checked ε Unit :=
  if cond then .ok () else .error .assertFailed

@[simp] theorem lift_ok (a : α) : (lift (.ok a) : Checked ε α) = .ok a := rfl

@[simp] theorem lift_error (e : ε) : (lift (.error e) : Checked ε α) = .error (.fault e) := rfl

theorem lift_ne_assertFailed (x : Except ε α) : lift x ≠ .error .assertFailed := by
  cases x <;> simp [lift]

theorem lift_eq_ok {x : Except ε α} {a : α} : lift x = .ok a ↔ x = .ok a := by
  cases x <;> simp [lift]

/-- `pure` of both programs. -/
theorem pure_eq_lift (a : α) : (pure a : Checked ε α) = lift (pure a) := rfl

/-- **Composition**: both programs take the same step and go on in the same way. -/
theorem lift_bind {x : Except ε α} {y : Checked ε α} {f : α → Except ε β}
    {g : α → Checked ε β} (hxy : y = lift x) (hfg : ∀ a, x = .ok a → g a = lift (f a)) :
    y >>= g = lift (x >>= f) := by
  subst hxy
  cases x with
  | ok a => exact hfg a rfl
  | error e => rfl

theorem assert_of {cond : Prop} [Decidable cond] (h : cond) :
    (assert cond : Checked ε Unit) = .ok () :=
  if_pos h

/-- An assertion that holds. -/
theorem assert_bind {cond : Prop} [Decidable cond] (h : cond) (g : Unit → Checked ε α) :
    assert cond >>= g = g () := by
  rw [assert_of h]
  rfl

/-- An assertion that does not hold. -/
theorem assert_bind_not {cond : Prop} [Decidable cond] (h : ¬ cond) (g : Unit → Checked ε α) :
    assert cond >>= g = .error .assertFailed := by
  rw [assert, if_neg h]
  rfl

/-- A step that returns. -/
theorem returned_bind {y : Checked ε α} {a : α} (h : y = .ok a) (g : α → Checked ε β) :
    y >>= g = g a := by
  rw [h]
  rfl

end Checked

end SimpleRpc.Lib
