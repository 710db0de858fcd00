import Mathlib.Order.Lattice

/-! Maps whose bindings end at a deadline, over any keys, values and linearly ordered clock. -/

namespace ExpiringMap

/-- A value that is bound until its deadline, or for good. -/
structure Binding (Value Clock : Type*) where
  value : Value
  deadline : Option Clock

variable {Key Value Clock : Type*} [LinearOrder Clock]

/-- A binding ends at its deadline. -/
def Binding.alive (now : Clock) (binding : Binding Value Clock) : Bool :=
  binding.deadline.all fun deadline => now < deadline

/-- What is left of a cell at a point of time. -/
def present (now : Clock) (cell : Option (Binding Value Clock))
    : Option (Binding Value Clock) :=
  cell.filter fun binding => binding.alive now

/-- A binding alive at a later time was alive before. -/
theorem Binding.alive_of_le {binding : Binding Value Clock} {now later : Clock}
    (order : now ≤ later) (alive : binding.alive later = true)
    : binding.alive now = true := by
  cases limit : binding.deadline with
  | none => simp [Binding.alive, limit]
  | some deadline =>
      simp only [Binding.alive, limit, Option.all_some, decide_eq_true_eq] at alive ⊢
      exact lt_of_le_of_lt order alive

/-- Looking at a cell in between does not change what is left of it later. -/
theorem present_present {now later : Clock} (order : now ≤ later)
    (cell : Option (Binding Value Clock))
    : present later (present now cell) = present later cell := by
  cases cell with
  | none => rfl
  | some binding =>
      simp only [present, Option.filter_some]
      cases alive : binding.alive later with
      | true => simp [Binding.alive_of_le order alive, alive]
      | false => cases binding.alive now <;> simp [alive]

end ExpiringMap
