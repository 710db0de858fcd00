import InMemoryDB.Library.Runs

/-! Work that a system brings to an end by itself: every step of some kind leaves less of it, so a
run of such steps stops after as many as the work allows.
-/

namespace TransitionSystem

variable {State Action : Type*} {step : State → Action → Option State}

/-- As long as an invariant holds, which every step keeps, the steps of some kind make a size
smaller.
-/
structure Decreases (step : State → Action → Option State) (kind : State → Action → Prop)
    (invariant : State → Prop) (size : State → ℕ)
    : Prop where
  preserved
    : ∀ {state action next}, invariant state → step state action = some next → invariant next
  smaller
    : ∀ {state action next},
        invariant state
        → kind state action
        → step state action = some next
        → size next < size state

namespace Decreases

variable {kind : State → Action → Prop} {invariant : State → Prop} {size : State → ℕ}

/-- A run of such steps has at most as many as the size that it takes away, by induction on it. -/
theorem length_add_le (decreases : Decreases step kind invariant size) {start final : State}
    {steps : List (State × Action)} (run : Run step start steps final) (kinds : Along kind steps)
    (initial : invariant start)
    : steps.length + size final ≤ size start := by
  induction run with
  | nil => simp
  | snoc earlier taken ih =>
      obtain ⟨before, last⟩ := along_snoc.mp kinds
      have bound := ih before
      have held := earlier.preserves decreases.preserved initial
      have less := decreases.smaller held last taken
      rw [List.length_append, List.length_singleton]
      omega

/-- Where the other steps do not add to the size, a run of any steps has at most as many of this
kind as the size that it takes away, by induction on it.
-/
theorem countP_add_le [∀ state action, Decidable (kind state action)]
    (decreases : Decreases step kind invariant size)
    (others
      : ∀ {state action next},
          invariant state
          → ¬ kind state action
          → step state action = some next
          → size next ≤ size state)
    {start final : State} {steps : List (State × Action)} (run : Run step start steps final)
    (initial : invariant start)
    : (steps.countP fun entry => kind entry.1 entry.2) + size final ≤ size start := by
  induction run with
  | nil => simp
  | @snoc steps middle action final earlier taken ih =>
      have held := earlier.preserves decreases.preserved initial
      rw [List.countP_append, List.countP_singleton]
      by_cases kindly : kind middle action
      · have less := decreases.smaller held kindly taken
        simp only [kindly, decide_true, if_true]
        omega
      · have less := others held kindly taken
        simp only [kindly, decide_false, Bool.false_eq_true, if_false]
        omega

end Decreases

end TransitionSystem
