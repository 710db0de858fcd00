import Mathlib.Data.List.Basic

/-! Finite runs of a partial step function. A run records the state before each of its
actions, so a condition on steps is a condition on the entries of that record.
-/

namespace TransitionSystem

variable {State Action : Type*} {step : State → Action → Option State}

/-- A run from `start` to its last index, with every step it took in order. -/
inductive Run (step : State → Action → Option State) (start : State)
    : List (State × Action) → State → Prop
  | nil : Run step start [] start
  | snoc {steps middle action final} (earlier : Run step start steps middle)
    (taken : step middle action = some final)
    : Run step start (steps ++ [(middle, action)]) final

/-- Every recorded step satisfies a condition on the state before it and its action. -/
def Along (condition : State → Action → Prop) (steps : List (State × Action)) : Prop :=
  ∀ entry ∈ steps, condition entry.1 entry.2

instance (condition : State → Action → Prop)
    [∀ state action, Decidable (condition state action)] (steps : List (State × Action))
    : Decidable (Along condition steps) :=
  inferInstanceAs (Decidable (∀ entry ∈ steps, condition entry.1 entry.2))

theorem along_snoc {condition : State → Action → Prop} {steps : List (State × Action)}
    {middle : State} {action : Action}
    : Along condition (steps ++ [(middle, action)])
      ↔ Along condition steps ∧ condition middle action := by
  simp only [Along, List.forall_mem_append, List.forall_mem_singleton]

/-- A property kept by every step that meets the condition holds at the end of a run
whose steps all meet it, by induction on the run.
-/
theorem Run.invariant {condition : State → Action → Prop} {invariant : State → Prop}
    (preserved
      : ∀ {state action next},
          invariant state
          → condition state action
          → step state action = some next
          → invariant next)
    {start final : State} {steps : List (State × Action)}
    (run : Run step start steps final) (met : Along condition steps)
    (initial : invariant start)
    : invariant final := by
  induction run with
  | nil => exact initial
  | snoc _ taken ih =>
      obtain ⟨earlier, last⟩ := along_snoc.mp met
      exact preserved (ih earlier) last taken

/-- A property kept by every step holds at the end of every run. -/
theorem Run.preserves {invariant : State → Prop}
    (preserved
      : ∀ {state action next}, invariant state → step state action = some next → invariant next)
    {start final : State} {steps : List (State × Action)}
    (run : Run step start steps final) (initial : invariant start)
    : invariant final := by
  induction run with
  | nil => exact initial
  | snoc _ taken ih => exact preserved ih taken

/-- Where an invariant makes a judgement of a step the same as a condition that keeps the
invariant, a run passes the judgement exactly if it meets the condition; by induction on the run.
-/
theorem Run.along_iff {judgement condition : State → Action → Prop}
    {invariant : State → Prop}
    (same
      : ∀ {state action next},
          invariant state
          → step state action = some next
          → (judgement state action ↔ condition state action))
    (preserved
      : ∀ {state action next},
          invariant state
          → condition state action
          → step state action = some next
          → invariant next)
    {start final : State} {steps : List (State × Action)}
    (run : Run step start steps final) (initial : invariant start)
    : Along judgement steps ↔ Along condition steps := by
  induction run with
  | nil => simp [Along]
  | snoc earlier taken ih =>
      rw [along_snoc, along_snoc, ih]
      exact and_congr_right fun met => same (earlier.invariant preserved met initial) taken

/-- An item of a list with one more item at its end is that one, or was there before. -/
theorem split_snoc {α : Type*} {items front back : List α} {last item : α}
    (same : items ++ [last] = front ++ item :: back)
    : back = [] ∧ last = item ∧ items = front
      ∨ ∃ others, back = others ++ [last] ∧ items = front ++ item :: others := by
  rcases List.eq_nil_or_concat back with rfl | ⟨others, final, rfl⟩
  · obtain ⟨rfl, here⟩ := List.append_inj' same rfl
    exact .inl ⟨rfl, (List.cons.inj here).1, rfl⟩
  · rw [List.concat_eq_append, ← List.cons_append, ← List.append_assoc] at same
    obtain ⟨rfl, here⟩ := List.append_inj' same rfl
    obtain rfl := (List.cons.inj here).1
    exact .inr ⟨others, List.concat_eq_append, rfl⟩

/-- Every recorded step satisfies a condition that also looks at the steps before it. -/
def AlongHistory (condition : List (State × Action) → State → Action → Prop)
    (steps : List (State × Action))
    : Prop :=
  ∀ front middle action back,
    steps = front ++ (middle, action) :: back → condition front middle action

theorem alongHistory_snoc {condition : List (State × Action) → State → Action → Prop}
    {steps : List (State × Action)} {middle : State} {action : Action}
    : AlongHistory condition (steps ++ [(middle, action)])
      ↔ AlongHistory condition steps ∧ condition steps middle action := by
  constructor
  · intro all
    refine ⟨?_, all steps middle action [] rfl⟩
    rintro front earlier issued back rfl
    exact all front earlier issued (back ++ [(middle, action)]) (by simp)
  · rintro ⟨before, last⟩ front earlier issued back same
    rcases split_snoc same with ⟨-, here, rfl⟩ | ⟨others, -, rfl⟩
    · obtain ⟨rfl, rfl⟩ := Prod.mk.inj here
      exact last
    · exact before front earlier issued others rfl

/-- The same for an invariant that looks back, by induction on the run. -/
theorem Run.invariantHistory {condition : State → Action → Prop}
    {invariant : List (State × Action) → State → Prop}
    (preserved
      : ∀ {steps state action next},
          invariant steps state
          → condition state action
          → step state action = some next
          → invariant (steps ++ [(state, action)]) next)
    {start final : State} {steps : List (State × Action)}
    (run : Run step start steps final) (met : Along condition steps)
    (initial : invariant [] start)
    : invariant steps final := by
  induction run with
  | nil => exact initial
  | snoc _ taken ih =>
      obtain ⟨earlier, last⟩ := along_snoc.mp met
      exact preserved (ih earlier) last taken

/-- A run that meets the condition passes every judgement that the invariant gives of its steps, by
induction on the run.
-/
theorem Run.alongHistory
    {judgement : List (State × Action) → State → Action → Prop}
    {condition : State → Action → Prop} {invariant : List (State × Action) → State → Prop}
    (judged
      : ∀ {steps state action},
          invariant steps state → condition state action → judgement steps state action)
    (preserved
      : ∀ {steps state action next},
          invariant steps state
          → condition state action
          → step state action = some next
          → invariant (steps ++ [(state, action)]) next)
    {start final : State} {steps : List (State × Action)}
    (run : Run step start steps final) (met : Along condition steps)
    (initial : invariant [] start)
    : AlongHistory judgement steps := by
  induction run with
  | nil => simp [AlongHistory]
  | snoc earlier taken ih =>
      obtain ⟨before, last⟩ := along_snoc.mp met
      have held := earlier.invariantHistory preserved before initial
      exact alongHistory_snoc.mpr ⟨ih before, judged held last⟩

/-- The same for a judgement that looks back, by induction on the run. -/
theorem Run.alongHistory_iff
    {judgement : List (State × Action) → State → Action → Prop}
    {condition : State → Action → Prop} {invariant : List (State × Action) → State → Prop}
    (same
      : ∀ {steps state action next},
          invariant steps state
          → step state action = some next
          → (judgement steps state action ↔ condition state action))
    (preserved
      : ∀ {steps state action next},
          invariant steps state
          → condition state action
          → step state action = some next
          → invariant (steps ++ [(state, action)]) next)
    {start final : State} {steps : List (State × Action)}
    (run : Run step start steps final) (initial : invariant [] start)
    : AlongHistory judgement steps ↔ Along condition steps := by
  induction run with
  | nil => simp [Along, AlongHistory]
  | snoc earlier taken ih =>
      rw [alongHistory_snoc, along_snoc, ih]
      exact and_congr_right fun met => same (earlier.invariantHistory preserved met initial) taken

/-- A run passes through every step that it records, by induction on the run. -/
theorem Run.split {start final : State} {steps : List (State × Action)}
    (run : Run step start steps final) {middle : State} {action : Action}
    (member : (middle, action) ∈ steps)
    : ∃ front back next,
        steps = front ++ (middle, action) :: back
        ∧ Run step start front middle
        ∧ step middle action = some next
        ∧ Run step next back final := by
  induction run with
  | nil => cases member
  | @snoc steps last lastAction final earlier taken ih =>
      rcases List.mem_append.mp member with before | here
      · obtain ⟨front, back, next, rfl, reached, moved, later⟩ := ih before
        refine ⟨front, back ++ [(last, lastAction)], next, ?_, reached, moved, .snoc later taken⟩
        rw [List.append_assoc]
        rfl
      · obtain ⟨rfl, rfl⟩ := Prod.mk.inj (List.mem_singleton.mp here)
        exact ⟨steps, [], final, rfl, earlier, taken, .nil⟩

/-- Two runs one after the other, by induction on the second. -/
theorem Run.append {start middle final : State} {front back : List (State × Action)}
    (first : Run step start front middle) (second : Run step middle back final)
    : Run step start (front ++ back) final := by
  induction second with
  | nil => exact (List.append_nil front).symm ▸ first
  | snoc _ taken ih =>
      rw [← List.append_assoc]
      exact .snoc ih taken

/-- After any number of its steps a run is at a state from which it goes on, by induction on the
run.
-/
theorem Run.cut {start final : State} {steps : List (State × Action)}
    (run : Run step start steps final) (count : ℕ)
    : ∃ middle,
        Run step start (steps.take count) middle ∧ Run step middle (steps.drop count) final := by
  induction run with
  | nil => exact ⟨start, by simpa using .nil, by simpa using .nil⟩
  | @snoc steps last action final earlier taken ih =>
      by_cases inside : count ≤ steps.length
      · obtain ⟨middle, before, after⟩ := ih
        rw [List.take_append_of_le_length inside, List.drop_append_of_le_length inside]
        exact ⟨middle, before, .snoc after taken⟩
      · have beyond : (steps ++ [(last, action)]).length ≤ count := by
          rw [List.length_append, List.length_singleton]
          omega
        rw [List.take_of_length_le beyond, List.drop_of_length_le beyond]
        exact ⟨final, .snoc earlier taken, .nil⟩

/-- The run a list of actions drives, when every action is enabled in its turn. -/
def trace (step : State → Action → Option State)
    : State → List Action → Option (List (State × Action) × State)
  | start, [] => some ([], start)
  | start, action :: rest =>
      (step start action).bind fun next =>
        (trace step next rest).map fun done => ((start, action) :: done.1, done.2)

/-- One step in front of a run is a run, by induction on the run behind it. -/
theorem Run.cons {start next final : State} {action : Action}
    {steps : List (State × Action)} (taken : step start action = some next)
    (later : Run step next steps final)
    : Run step start ((start, action) :: steps) final := by
  induction later with
  | nil => exact .snoc .nil taken
  | snoc _ last ih => exact .snoc ih last

/-- A computed trace is a run, by induction on its actions. -/
theorem run_of_trace {start final : State} {actions : List Action}
    {steps : List (State × Action)} (traced : trace step start actions = some (steps, final))
    : Run step start steps final := by
  induction actions generalizing start steps with
  | nil =>
      obtain ⟨rfl, rfl⟩ := by simpa only [trace, Option.some.injEq, Prod.mk.injEq] using traced
      exact .nil
  | cons action rest ih =>
      simp only [trace, Option.bind_eq_some_iff, Option.map_eq_some_iff, Prod.mk.injEq]
        at traced
      obtain ⟨next, taken, done, later, rfl, rfl⟩ := traced
      exact (ih later).cons taken

/-- A system that is seen as another one, each of its steps as a step of that one or as none, has
only runs that are seen as runs of that one; by induction on the run.
-/
theorem Run.simulates {State' Action' : Type*} {step' : State' → Action' → Option State'}
    {condition : State → Action → Prop} {invariant : State → Prop} (seen : State → State')
    (preserved
      : ∀ {state action next},
          invariant state
          → condition state action
          → step state action = some next
          → invariant next)
    (matched
      : ∀ {state action next},
          invariant state
          → condition state action
          → step state action = some next
          → seen next = seen state ∨ ∃ action', step' (seen state) action' = some (seen next))
    {start final : State} {steps : List (State × Action)}
    (run : Run step start steps final) (met : Along condition steps) (initial : invariant start)
    : ∃ steps', Run step' (seen start) steps' (seen final) := by
  induction run with
  | nil => exact ⟨[], .nil⟩
  | snoc earlier taken ih =>
      obtain ⟨before, last⟩ := along_snoc.mp met
      obtain ⟨steps', run'⟩ := ih before
      have held := earlier.invariant preserved before initial
      rcases matched held last taken with same | ⟨action', taken'⟩
      · exact ⟨steps', same ▸ run'⟩
      · exact ⟨_, run'.snoc taken'⟩

end TransitionSystem
