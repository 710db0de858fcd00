import InMemoryDB.Library.Delimited
import Mathlib.Data.List.Induction

/-! A text that is written in several goes. Each go adds terminated items, and breaks off somewhere
within a further one; the next go adds to what it finds.
-/

namespace Delimited

variable {α β : Type*} [DecidableEq α]

-----------------------------------------------------------------------------------------
-- Lists that agree but for a few items
-----------------------------------------------------------------------------------------

/-- Two lists have the same items in the same order, but for at most so many in each. -/
def AgreesBut (count : ℕ) (first second : List β) : Prop :=
  ∃ common : List β,
    common.Sublist first
    ∧ common.Sublist second
    ∧ first.length ≤ common.length + count
    ∧ second.length ≤ common.length + count

namespace AgreesBut

variable {count more : ℕ} {first second first' second' : List β}

theorem refl (items : List β) : AgreesBut 0 items items :=
  ⟨items, .refl items, .refl items, Nat.le_add_right _ _, Nat.le_add_right _ _⟩

theorem mono (agrees : AgreesBut count first second) (order : count ≤ more)
    : AgreesBut more first second := by
  obtain ⟨common, left, right, shorter, longer⟩ := agrees
  exact ⟨common, left, right, by omega, by omega⟩

/-- Few items of one list against few of the other. -/
theorem of_length_le (few : first.length ≤ count) (few' : second.length ≤ count)
    : AgreesBut count first second :=
  ⟨[], List.nil_sublist _, List.nil_sublist _, by simpa using few, by simpa using few'⟩

theorem append (agrees : AgreesBut count first second) (agrees' : AgreesBut more first' second')
    : AgreesBut (count + more) (first ++ first') (second ++ second') := by
  obtain ⟨common, left, right, shorter, longer⟩ := agrees
  obtain ⟨common', left', right', shorter', longer'⟩ := agrees'
  refine ⟨common ++ common', left.append left', right.append right', ?_, ?_⟩
  all_goals
    rw [List.length_append, List.length_append]
    omega

/-- Lists that agree in all items are the same. -/
theorem eq (agrees : AgreesBut 0 first second) : first = second := by
  obtain ⟨common, left, right, shorter, longer⟩ := agrees
  exact (left.eq_of_length_le shorter).symm.trans (right.eq_of_length_le longer)

end AgreesBut

-----------------------------------------------------------------------------------------
-- The pieces of a text that was written in several goes
-----------------------------------------------------------------------------------------

/-- What one go adds: terminated items, and the beginning of another one. -/
structure Go (α β : Type*) where
  items : List β
  fragment : List α

namespace Go

/-- The text that a go adds. -/
def text (separator : α) (write : β → List α) (go : Go α β) : List α :=
  (go.items.map write).flatMap (· ++ [separator]) ++ go.fragment

/-- How many goes have broken off within an item. -/
def torn (goes : List (Go α β)) : ℕ := goes.countP fun go => go.fragment ≠ []

variable {separator : α} {write : β → List α} {read : List α → Option β}

/-- The items that are read back from the terminated pieces of a text. -/
def readBack (separator : α) (read : List α → Option β) (text : List α) : List β :=
  (pieces separator text).1.filterMap read

/-- One more go behind a text whose last piece is whole or not. -/
theorem readBack_append {file : List α} {go : Go α β}
    (reads : ∀ item ∈ go.items, read (write item) = some item)
    (fits : ∀ item ∈ go.items, separator ∉ write item) (fits' : separator ∉ go.fragment)
    (rest : separator ∉ (pieces separator file).2)
    : (go.items = []
        ∧ readBack separator read (file ++ go.text separator write) = readBack separator read file
        ∧ (pieces separator (file ++ go.text separator write)).2
          = (pieces separator file).2 ++ go.fragment)
      ∨ ∃ first others,
          go.items = first :: others
          ∧ readBack separator read (file ++ go.text separator write)
            = readBack separator read file
              ++ (read ((pieces separator file).2 ++ write first)).toList
              ++ others
          ∧ (pieces separator (file ++ go.text separator write)).2 = go.fragment := by
  cases items : go.items with
  | nil =>
      refine .inl ⟨rfl, ?_⟩
      have glued : separator ∉ (pieces separator file).2 ++ go.fragment := by
        simpa using ⟨rest, fits'⟩
      have whole := pieces_append separator file go.fragment
      rw [pieces_of_notMem glued, List.append_nil] at whole
      simp [readBack, text, items, whole]
  | cons first others =>
      refine .inr ⟨first, others, rfl, ?_⟩
      rw [items] at reads fits
      obtain ⟨-, reads⟩ := List.forall_mem_cons.mp reads
      obtain ⟨fit, fits⟩ := List.forall_mem_cons.mp fits
      have glued : separator ∉ (pieces separator file).2 ++ write first := by
        simpa using ⟨rest, fit⟩
      have lines : ∀ piece ∈ others.map write, separator ∉ piece := by simpa using fits
      have whole := pieces_append separator file (go.text separator write)
      have front
          : (pieces separator file).2 ++ go.text separator write
            = ((pieces separator file).2 ++ write first) ++ separator
              :: ((others.map write).flatMap (· ++ [separator]) ++ go.fragment) := by
        simp [text, items]
      rw [front, pieces_append_cons _ glued, pieces_flatMap_append _ lines,
        pieces_of_notMem fits'] at whole
      have back : (others.map write).filterMap read = others := by
        rw [List.filterMap_map]
        exact (List.filterMap_congr reads).trans List.filterMap_some
      refine ⟨?_, by rw [whole]⟩
      simp only [readBack, whole, List.append_nil, List.filterMap_append, List.filterMap_cons,
        back, List.append_assoc]
      cases read ((pieces separator file).2 ++ write first) <;> rfl

/-- What is left of a text of several goes: all items of a go but its first are read back, and at
most one item is lost or made up for each go that has broken off. As long as the last piece has no
end, it is not yet counted.
-/
structure Survives (separator : α) (read : List α → Option β) (goes : List (Go α β))
    (file : List α)
    : Prop where
  rest : separator ∉ (pieces separator file).2
  kept : (goes.flatMap fun go => go.items.tail).Sublist (readBack separator read file)
  agrees
    : ∃ count,
        count + (if (pieces separator file).2 = [] then 0 else 1) ≤ torn goes
        ∧ AgreesBut count (goes.flatMap items) (readBack separator read file)

/-- One more go, by whether it ends the piece that it finds. -/
theorem Survives.append {goes : List (Go α β)} {file : List α}
    (survives : Survives separator read goes file) {go : Go α β}
    (reads : ∀ item ∈ go.items, read (write item) = some item)
    (fits : ∀ item ∈ go.items, separator ∉ write item) (fits' : separator ∉ go.fragment)
    : Survives separator read (goes ++ [go]) (file ++ go.text separator write) := by
  obtain ⟨count, few, agrees⟩ := survives.agrees
  have more : torn (goes ++ [go]) = torn goes + if go.fragment = [] then 0 else 1 := by
    by_cases whole : go.fragment = [] <;> simp [torn, List.countP_append, whole]
  rcases readBack_append reads fits fits' survives.rest with
    ⟨none, same, rest⟩ | ⟨first, others, items, read', rest⟩
  · refine ⟨?_, ?_, ⟨count, ?_, ?_⟩⟩
    · rw [rest]
      simpa using ⟨survives.rest, fits'⟩
    · rw [same]
      simpa [none] using survives.kept
    · rw [rest, more]
      by_cases whole : go.fragment = []
      · simpa [whole] using few
      · simp only [List.append_eq_nil_iff, whole, and_false, if_false]
        omega
    · rw [same]
      simpa [none] using agrees
  · refine ⟨rest ▸ fits', ?_, ?_⟩
    · rw [read', List.flatMap_append]
      refine (survives.kept.trans (List.sublist_append_left _ _)).append ?_
      simp [items]
    · rw [read', rest, more, List.flatMap_append, List.append_assoc]
      simp only [List.flatMap_cons, List.flatMap_nil, List.append_nil, items]
      by_cases whole : (pieces separator file).2 = []
      · refine ⟨count, by simp only [whole, if_true] at few; omega, ?_⟩
        rw [whole, List.nil_append, reads first (items ▸ List.mem_cons_self)]
        exact agrees.append (.refl _)
      · refine ⟨count + 1, by simp only [whole, if_false] at few; omega, ?_⟩
        refine agrees.append ?_
        have damaged
            : AgreesBut 1 [first] (read ((pieces separator file).2 ++ write first)).toList := by
          apply AgreesBut.of_length_le
          · simp
          · cases read _ <;> simp
        exact damaged.append (.refl others)

/-- Whatever the goes are, by induction on them. -/
theorem survives (goes : List (Go α β))
    (reads : ∀ go ∈ goes, ∀ item ∈ go.items, read (write item) = some item)
    (fits : ∀ go ∈ goes, (∀ item ∈ go.items, separator ∉ write item) ∧ separator ∉ go.fragment)
    : Survives separator read goes (goes.flatMap (text separator write)) := by
  induction goes using List.reverseRecOn with
  | nil =>
      exact ⟨List.not_mem_nil, List.nil_sublist _, 0, by simp [pieces, torn], .refl []⟩
  | append_singleton earlier go ih =>
      obtain ⟨readsEarlier, readsGo⟩ := List.forall_mem_append.mp reads
      obtain ⟨fitsEarlier, fitsGo⟩ := List.forall_mem_append.mp fits
      have last : go ∈ [go] := List.mem_singleton_self go
      rw [List.flatMap_append, List.flatMap_singleton]
      exact (ih readsEarlier fitsEarlier).append (readsGo go last) (fitsGo go last).1
        (fitsGo go last).2

end Go

end Delimited
