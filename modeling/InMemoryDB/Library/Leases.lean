import InMemoryDB.Library.Runs
import Mathlib.Data.Finset.Basic

/-! Handles that are opened and closed again and again: a log of this, and which of them are open
after it.
-/

namespace Leases

variable {Handle : Type*}

inductive Event (Handle : Type*) where
  | opened (handle : Handle)
  | closed (handle : Handle)
  deriving DecidableEq

/-- Between two closings of a handle it is opened. -/
def Alternates (log : List (Event Handle)) : Prop :=
  ∀ handle front between back,
    log = front ++ .closed handle :: (between ++ .closed handle :: back)
    → .opened handle ∈ between

/-- And a handle that is open has been opened since it was closed the last time. -/
structure Consistent (held : Finset Handle) (log : List (Event Handle)) : Prop where
  alternates : Alternates log
  reopened
    : ∀ handle ∈ held, ∀ front back, log = front ++ .closed handle :: back → .opened handle ∈ back

namespace Consistent

theorem empty : Consistent (∅ : Finset Handle) [] where
  alternates handle front between back same := by simp at same
  reopened handle member := by simp at member

variable [DecidableEq Handle] {held : Finset Handle} {log : List (Event Handle)}

/-- Any handle may be opened. -/
theorem opened (consistent : Consistent held log) (handle : Handle)
    : Consistent (insert handle held) (log ++ [.opened handle]) := by
  constructor
  · intro other front between back same
    rcases TransitionSystem.split_snoc same with ⟨none, -⟩ | ⟨others, more, rfl⟩
    · simp at none
    · rcases TransitionSystem.split_snoc more.symm with ⟨-, last, -⟩ | ⟨rest, -, rfl⟩
      · cases last
      · exact consistent.alternates other front between rest rfl
  · intro other member front back same
    rcases TransitionSystem.split_snoc same with ⟨-, last, -⟩ | ⟨others, rfl, earlier⟩
    · cases last
    · rcases Finset.mem_insert.mp member with rfl | before
      · exact List.mem_append_right _ List.mem_cons_self
      · exact List.mem_append_left _ (consistent.reopened other before front others earlier)

/-- A handle may be closed that is open. -/
theorem closed (consistent : Consistent held log) {handle : Handle} (member : handle ∈ held)
    : Consistent (held.erase handle) (log ++ [.closed handle]) := by
  constructor
  · intro other front between back same
    rcases TransitionSystem.split_snoc same with ⟨none, -⟩ | ⟨others, more, rfl⟩
    · simp at none
    · rcases TransitionSystem.split_snoc more.symm with ⟨rfl, last, rfl⟩ | ⟨rest, -, rfl⟩
      · obtain rfl := Event.closed.inj last
        exact consistent.reopened _ member front _ rfl
      · exact consistent.alternates other front between rest rfl
  · intro other member front back same
    obtain ⟨different, before⟩ := Finset.mem_erase.mp member
    rcases TransitionSystem.split_snoc same with ⟨-, last, -⟩ | ⟨others, rfl, earlier⟩
    · exact absurd (Event.closed.inj last).symm different
    · exact List.mem_append_left _ (consistent.reopened other before front others earlier)

end Consistent

-----------------------------------------------------------------------------------------
-- Balance
-----------------------------------------------------------------------------------------

variable [DecidableEq Handle]

/-- Every handle was closed as often as it was opened, if it is not open now. -/
def Balanced (held : Finset Handle) (log : List (Event Handle)) : Prop :=
  ∀ handle, log.count (.opened handle) = log.count (.closed handle) + if handle ∈ held then 1 else 0

/-- One handle is opened that was not open, or closed that was, or none. -/
inductive Moves (held : Finset Handle) (log : List (Event Handle))
    : Finset Handle → List (Event Handle) → Prop
  | stay : Moves held log held log
  | opened {handle} (new : handle ∉ held)
    : Moves held log (insert handle held) (log ++ [.opened handle])
  | closed {handle} (member : handle ∈ held)
    : Moves held log (held.erase handle) (log ++ [.closed handle])

/-- The books of a log: nothing is closed that is not open, and every closing belongs to one
opening.
-/
structure Kept (held : Finset Handle) (log : List (Event Handle)) : Prop where
  consistent : Consistent held log
  balanced : Balanced held log

variable {held next : Finset Handle} {log later : List (Event Handle)}

namespace Kept

theorem empty : Kept (∅ : Finset Handle) [] where
  consistent := .empty
  balanced handle := by simp

/-- By cases on the move. -/
theorem moves (kept : Kept held log) (moved : Moves held log next later) : Kept next later := by
  cases moved with
  | stay => exact kept
  | @opened handle new =>
      refine ⟨kept.consistent.opened handle, fun other => ?_⟩
      have before := kept.balanced other
      simp only [List.count_append, List.count_singleton', Event.opened.injEq, reduceCtorEq,
        Finset.mem_insert, if_false]
      by_cases own : other = handle
      · obtain rfl := own
        rw [if_neg new] at before
        simp only [before, if_true, true_or]
      · simp only [own, Ne.symm own, before, if_false, false_or]
        omega
  | @closed handle member =>
      refine ⟨kept.consistent.closed member, fun other => ?_⟩
      have before := kept.balanced other
      simp only [List.count_append, List.count_singleton', Event.closed.injEq, reduceCtorEq,
        Finset.mem_erase, if_false]
      by_cases own : other = handle
      · obtain rfl := own
        rw [if_pos member] at before
        simp only [before, ne_eq, not_true, false_and, if_true, if_false]
      · simp only [own, Ne.symm own, before, ne_eq, not_false_eq_true, true_and, if_false]
        omega

/-- All handles that are open are closed one after another, by induction on them. -/
theorem closeAll {order : List Handle} (kept : Kept order.toFinset log) (once : order.Nodup)
    : Kept ∅ (log ++ order.map .closed) := by
  induction order generalizing log with
  | nil => simpa using kept
  | cons handle rest ih =>
      obtain ⟨absent, others⟩ := List.nodup_cons.mp once
      have first := kept.moves (.closed (List.mem_toFinset.mpr List.mem_cons_self))
      have left : (handle :: rest).toFinset.erase handle = rest.toFinset := by
        rw [List.toFinset_cons, Finset.erase_insert (by simpa using absent)]
      rw [left] at first
      simpa using ih first others

end Kept

end Leases
