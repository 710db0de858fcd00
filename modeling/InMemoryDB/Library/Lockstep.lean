import Mathlib.Data.List.Basic

/-! Deterministic machines that answer every input, run over lists of inputs; two machines that
answer alike as long as they get the same inputs.
-/

namespace Lockstep

variable {Input Output State Left Right : Type*}

/-- All answers of a machine to its inputs, and where it ends. -/
def run (step : Input → State → Output × State) : List Input → State → List Output × State
  | [], state => ([], state)
  | input :: rest, state =>
      let done := step input state
      let later := run step rest done.2
      (done.1 :: later.1, later.2)

/-- What every step keeps holds at the end, by induction on the inputs. -/
theorem run_invariant {step : Input → State → Output × State} {invariant : State → Prop}
    (preserved : ∀ input state, invariant state → invariant (step input state).2)
    (inputs : List Input) {state : State} (initial : invariant state)
    : invariant (run step inputs state).2 := by
  induction inputs generalizing state with
  | nil => exact initial
  | cons input rest ih => exact ih (preserved input state initial)

/-- Two machines whose steps answer alike and keep a relation between their states answer
alike for good; by induction on the inputs.
-/
theorem run_eq {left : Input → Left → Output × Left} {right : Input → Right → Output × Right}
    {related : Left → Right → Prop}
    (simulated
      : ∀ input first second,
          related first second
          → (left input first).1 = (right input second).1
            ∧ related (left input first).2 (right input second).2)
    (inputs : List Input) {first : Left} {second : Right} (start : related first second)
    : (run left inputs first).1 = (run right inputs second).1
      ∧ related (run left inputs first).2 (run right inputs second).2 := by
  induction inputs generalizing first second with
  | nil => exact ⟨rfl, start⟩
  | cons input rest ih =>
      obtain ⟨answer, next⟩ := simulated input first second start
      obtain ⟨answers, final⟩ := ih next
      exact ⟨congrArg₂ List.cons answer answers, final⟩

end Lockstep
