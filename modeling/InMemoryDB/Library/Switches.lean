import InMemoryDB.Library.Runs

/-! Facts that events of a history switch on and off: one of them holds at the end if the last
event that switched it on was not followed by one that switched it off.
-/

namespace Switches

variable {Event : Type*}

/-- Some event switches on, and none behind it switches off. -/
def LastOn (on off : Event → Prop) (history : List Event) : Prop :=
  ∃ front event back, history = front ++ event :: back ∧ on event ∧ ∀ later ∈ back, ¬ off later

variable {on off : Event → Prop}

theorem not_lastOn_nil : ¬ LastOn on off [] := by
  rintro ⟨front, event, back, same, -⟩
  exact List.append_ne_nil_of_right_ne_nil front (List.cons_ne_nil event back) same.symm

/-- One more event decides, unless it does neither. -/
theorem lastOn_snoc {history : List Event} {event : Event}
    : LastOn on off (history ++ [event]) ↔ on event ∨ LastOn on off history ∧ ¬ off event := by
  constructor
  · rintro ⟨front, switch, back, same, switched, kept⟩
    rcases TransitionSystem.split_snoc same with ⟨-, rfl, -⟩ | ⟨others, rfl, rfl⟩
    · exact .inl switched
    · obtain ⟨earlier, last⟩ := List.forall_mem_append.mp kept
      exact .inr ⟨⟨front, switch, others, rfl, switched, earlier⟩,
        last event (List.mem_singleton_self event)⟩
  · rintro (switched | ⟨⟨front, switch, back, rfl, switched, kept⟩, stays⟩)
    · exact ⟨history, event, [], rfl, switched, fun later member => nomatch member⟩
    · refine ⟨front, switch, back ++ [event], ?_, switched, ?_⟩
      · rw [List.append_assoc, List.cons_append]
      · exact List.forall_mem_append.mpr ⟨kept, List.forall_mem_singleton.mpr stays⟩

/-- A system whose every step switches facts as its action says has at the end of a run the facts
that were switched on last; by induction on the run.
-/
theorem holds_iff_lastOn {State Action Fact : Type*} {step : State → Action → Option State}
    (holds : State → Fact → Prop) (on off : Action → Fact → Prop)
    (switched
      : ∀ {state action next fact},
          step state action = some next
          → (holds next fact ↔ on action fact ∨ holds state fact ∧ ¬ off action fact))
    {start final : State} {steps : List (State × Action)}
    (run : TransitionSystem.Run step start steps final) (fact : Fact)
    (initial : ¬ holds start fact)
    : holds final fact ↔ LastOn (on · fact) (off · fact) (steps.map Prod.snd) := by
  induction run with
  | nil => exact iff_of_false initial not_lastOn_nil
  | snoc _ taken ih => rw [List.map_append, List.map_singleton, lastOn_snoc, switched taken, ih]

end Switches
