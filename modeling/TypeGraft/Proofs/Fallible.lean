/-
  Computations that may fail, and what they fail with.

  Key definitions include:
    * `failure?`

  Main declarations:
    * `failure?_bind`
    * `eq_ok_of_toOption`
-/

namespace TypeGraft

/- The error of a computation that fails. -/
def failure?
    {ε α : Type} : Except ε α → Option ε
  | .ok _ => none
  | .error e => some e

theorem failure?_eq_none_iff
    {ε α : Type}
    {x : Except ε α} :
    failure? x = none ↔ ∃ a, x = .ok a := by
  cases x <;> simp [failure?]

theorem failure?_eq_some_iff
    {ε α : Type}
    {x : Except ε α}
    {e : ε} :
    failure? x = some e ↔ x = .error e := by
  cases x <;> simp [failure?]

/-
  The error of two steps is that of the first one, or else
  that of the second, if it is the same from wherever the
  first step leads.
-/
theorem failure?_bind
    {ε α β : Type}
    {x : Except ε α}
    {f : α → Except ε β}
    {later : Option ε}
    (h : ∀ a, failure? (f a) = later) :
    failure? (x >>= f) = (failure? x).or later := by
  cases x with
  | error e => rfl
  | ok a => exact h a

/- A computation that has a value succeeded with it. -/
theorem eq_ok_of_toOption
    {ε α : Type}
    {x : Except ε α}
    {a : α}
    (h : x.toOption = some a) : x = .ok a := by
  cases x with
  | error e => cases h
  | ok b => exact congrArg Except.ok (Option.some.inj h)

end TypeGraft
