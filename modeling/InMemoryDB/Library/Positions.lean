import Mathlib.Data.List.Basic

/-! The items of a list that stand between two positions. -/

namespace Positions

variable {α : Type*}

/-- The items whose positions lie between two bounds, which may lie outside of the list. -/
def between (first last : Int) (items : List α) : List α :=
  (items.zipIdx.filter fun entry => first ≤ entry.2 ∧ entry.2 ≤ last).map Prod.fst

/-- Behind an offset, the items between two positions stand together; by induction on them. -/
theorem filter_zipIdx (first last offset : ℕ) (items : List α)
    : ((items.zipIdx offset).filter fun entry => first ≤ entry.2 ∧ entry.2 ≤ last).map Prod.fst
      = (items.drop (first - offset)).take (last + 1 - max first offset) := by
  induction items generalizing offset with
  | nil => simp
  | cons item rest ih =>
      rw [List.zipIdx_cons, List.filter_cons]
      by_cases early : first ≤ offset
      · have later := ih (offset + 1)
        rw [show first - (offset + 1) = 0 by omega, Nat.max_eq_right (by omega), List.drop_zero]
          at later
        rw [show first - offset = 0 by omega, Nat.max_eq_right early, List.drop_zero]
        by_cases within : offset ≤ last
        · rw [show last + 1 - offset = (last + 1 - (offset + 1)) + 1 by omega,
            List.take_succ_cons, ← later]
          simp [early, within]
        · rw [show last + 1 - (offset + 1) = 0 by omega, List.take_zero] at later
          rw [show last + 1 - offset = 0 by omega, List.take_zero, ← later]
          simp [within]
      · have later := ih (offset + 1)
        rw [Nat.max_eq_left (by omega)] at later ⊢
        rw [show first - offset = (first - (offset + 1)) + 1 by omega, List.drop_succ_cons,
          ← later]
        simp [early]

/-- Positions that lie in the list are those of one stretch of it. -/
theorem between_eq {first last : Int} (inside : 0 ≤ first) (items : List α)
    : between first last items
      = (items.drop first.toNat).take (last + 1 - first).toNat := by
  obtain ⟨start, rfl⟩ := Int.eq_ofNat_of_zero_le inside
  by_cases order : 0 ≤ last
  · obtain ⟨stop, rfl⟩ := Int.eq_ofNat_of_zero_le order
    have cut := filter_zipIdx start stop 0 items
    rw [Nat.sub_zero, Nat.max_zero] at cut
    rw [show ((stop : Int) + 1 - start).toNat = stop + 1 - start by omega, Int.toNat_natCast,
      ← cut]
    simp [between]
  · have none : (last + 1 - (start : Int)).toNat = 0 := by omega
    rw [none, List.take_zero]
    refine List.map_eq_nil_iff.mpr (List.filter_eq_nil_iff.mpr ?_)
    intro entry member
    simp only [decide_eq_true_eq, not_and]
    omega

/-- Without a position between the bounds there is no item. -/
theorem between_eq_nil {first last : Int} (empty : last < first) (items : List α)
    : between first last items = [] := by
  refine List.map_eq_nil_iff.mpr (List.filter_eq_nil_iff.mpr ?_)
  intro entry member
  simp only [decide_eq_true_eq, not_and]
  omega

/-- From the first position to the last there is the whole list. -/
theorem between_all (items : List α) : between 0 (items.length - 1) items = items := by
  rw [between_eq (Int.le_refl 0), Int.toNat_zero, List.drop_zero, List.take_of_length_le (by omega)]

end Positions
