import Mathlib.Data.List.Basic

/-! Text cut at separators: the first cut, the terminated pieces with the open rest, and
the non-empty words between blanks.
-/

namespace Delimited

variable {α : Type*} [DecidableEq α]

-----------------------------------------------------------------------------------------
-- The first separator
-----------------------------------------------------------------------------------------

/-- What stands before and after the first separator, if there is one. -/
def splitFirst (separator : α) : List α → Option (List α × List α)
  | [] => none
  | head :: tail =>
      if head = separator then some ([], tail)
      else (splitFirst separator tail).map fun cut => (head :: cut.1, cut.2)

/-- No separator, no cut, by induction on the text. -/
theorem splitFirst_eq_none {separator : α} {text : List α}
    : splitFirst separator text = none ↔ separator ∉ text := by
  induction text with
  | nil => simp [splitFirst]
  | cons head tail ih =>
      by_cases same : head = separator
      · simp [splitFirst, same]
      · simp [splitFirst, same, ih, Ne.symm same]

/-- A cut takes the text apart around its first separator, by induction on the text. -/
theorem splitFirst_eq_some {separator : α} {text before after : List α}
    : splitFirst separator text = some (before, after)
      ↔ text = before ++ separator :: after ∧ separator ∉ before := by
  induction text generalizing before with
  | nil => simp [splitFirst]
  | cons head tail ih =>
      by_cases same : head = separator
      · subst head
        cases before with
        | nil => simp [splitFirst, eq_comm]
        | cons first rest => simp +contextual [splitFirst]
      · cases before with
        | nil => simp [splitFirst, same]
        | cons first rest =>
            simp only [splitFirst, same, if_false, Option.map_eq_some_iff, Prod.exists,
              Prod.mk.injEq, List.cons.injEq, List.cons_append, List.mem_cons, not_or]
            constructor
            · rintro ⟨piece, others, cut, ⟨rfl, rfl⟩, rfl⟩
              obtain ⟨rfl, absent⟩ := ih.mp cut
              exact ⟨⟨rfl, rfl⟩, Ne.symm same, absent⟩
            · rintro ⟨⟨rfl, rfl⟩, _, absent⟩
              exact ⟨rest, after, ih.mpr ⟨rfl, absent⟩, ⟨rfl, rfl⟩, rfl⟩

-----------------------------------------------------------------------------------------
-- Terminated pieces and the open rest
-----------------------------------------------------------------------------------------

/-- The pieces that end in a separator, without it, and what follows the last one. -/
def pieces (separator : α) : List α → List (List α) × List α
  | [] => ([], [])
  | head :: tail =>
      let later := pieces separator tail
      if head = separator then ([] :: later.1, later.2)
      else
        match later.1 with
        | [] => ([], head :: later.2)
        | first :: others => ((head :: first) :: others, later.2)

/-- Text without a separator is all rest, by induction. -/
theorem pieces_of_notMem {separator : α} {text : List α} (absent : separator ∉ text)
    : pieces separator text = ([], text) := by
  induction text with
  | nil => rfl
  | cons head tail ih =>
      obtain ⟨different, absent⟩ := not_or.mp (List.mem_cons.not.mp absent)
      simp [pieces, ih absent, Ne.symm different]

/-- The first piece ends at the first separator, by induction on that piece. -/
theorem pieces_append_cons {separator : α} {before : List α} (after : List α)
    (absent : separator ∉ before)
    : pieces separator (before ++ separator :: after)
      = (before :: (pieces separator after).1, (pieces separator after).2) := by
  induction before with
  | nil => simp [pieces]
  | cons head tail ih =>
      obtain ⟨different, absent⟩ := not_or.mp (List.mem_cons.not.mp absent)
      simp [pieces, ih absent, Ne.symm different]

/-- Cutting a text and going on with its rest cuts the longer text, by induction. -/
theorem pieces_append (separator : α) (front back : List α)
    : pieces separator (front ++ back)
      = ((pieces separator front).1
          ++ (pieces separator ((pieces separator front).2 ++ back)).1,
        (pieces separator ((pieces separator front).2 ++ back)).2) := by
  induction front with
  | nil => simp [pieces]
  | cons head tail ih =>
      by_cases same : head = separator
      · simp [pieces, same, ih]
      · cases done : (pieces separator tail).1 with
        | nil => simp [pieces, same, ih, done]
        | cons first others => simp [pieces, same, ih, done]

/-- Terminated pieces in front of a text are cut off one by one, by induction on them. -/
theorem pieces_flatMap_append {separator : α} {front : List (List α)} (back : List α)
    (absent : ∀ piece ∈ front, separator ∉ piece)
    : pieces separator (front.flatMap (· ++ [separator]) ++ back)
      = (front ++ (pieces separator back).1, (pieces separator back).2) := by
  induction front with
  | nil => simp
  | cons head tail ih =>
      rw [List.flatMap_cons, List.append_assoc, List.append_assoc, List.singleton_append,
        pieces_append_cons _ (absent head (by simp)),
        ih fun piece member => absent piece (List.mem_cons_of_mem _ member)]
      rfl

-----------------------------------------------------------------------------------------
-- Texts that are cut short
-----------------------------------------------------------------------------------------

omit [DecidableEq α] in
/-- A beginning of terminated pieces is some whole ones and a beginning of the next, by
induction on the pieces.
-/
theorem prefix_flatMap {separator : α} {parts : List (List α)} {cut : List α}
    (beginning : cut <+: parts.flatMap (· ++ [separator]))
    : ∃ whole rest fragment,
        parts = whole ++ rest
        ∧ cut = whole.flatMap (· ++ [separator]) ++ fragment
        ∧ (fragment = [] ∨ ∃ part others, rest = part :: others ∧ fragment <+: part) := by
  induction parts generalizing cut with
  | nil =>
      obtain rfl := List.prefix_nil.mp beginning
      exact ⟨[], [], [], rfl, rfl, .inl rfl⟩
  | cons first rest ih =>
      rw [List.flatMap_cons, List.append_assoc] at beginning
      rcases List.prefix_or_prefix_of_prefix beginning (List.prefix_append first _) with
        inside | ⟨beyond, rfl⟩
      · exact ⟨[], first :: rest, cut, rfl, rfl, .inr ⟨first, rest, rfl, inside⟩⟩
      · rw [List.prefix_append_right_inj, List.singleton_append, List.prefix_cons_iff]
          at beginning
        rcases beginning with rfl | ⟨cut, rfl, later⟩
        · exact ⟨[], first :: rest, first, rfl, by simp, .inr ⟨first, rest, rfl, List.prefix_rfl⟩⟩
        · obtain ⟨whole, rest, fragment, rfl, rfl, left⟩ := ih later
          exact ⟨first :: whole, rest, fragment, rfl, by simp, left⟩

-----------------------------------------------------------------------------------------
-- Words between blanks
-----------------------------------------------------------------------------------------

omit [DecidableEq α]

/-- The maximal non-empty runs of text without a blank. -/
def words (blank : α → Bool) (text : List α) : List (List α) :=
  (text.splitOnP blank).filter (fun word => !word.isEmpty)

/-- A word is not empty and has no blank in it. -/
def IsWord (blank : α → Bool) (word : List α) : Prop :=
  word ≠ [] ∧ ∀ x ∈ word, blank x = false

instance (blank : α → Bool) (word : List α) : Decidable (IsWord blank word) :=
  decidable_of_iff (word.isEmpty = false ∧ word.all (fun x => !blank x) = true) (by
    simp [IsWord])

theorem words_nil (blank : α → Bool) : words blank [] = [] := rfl

/-- A word alone is its only word, since nothing cuts it. -/
theorem words_of_isWord {blank : α → Bool} {word : List α} (h : IsWord blank word)
    : words blank word = [word] := by
  rw [words, List.splitOnP_eq_singleton h.2]
  simpa using h.1

/-- A word before a blank is cut off first. -/
theorem words_append_cons {blank : α → Bool} {word : List α} {space : α}
    (h : IsWord blank word) (isBlank : blank space = true) (rest : List α)
    : words blank (word ++ space :: rest) = word :: words blank rest := by
  rw [words, List.splitOnP_append_cons_of_forall_mem h.2 space isBlank]
  simp [words, h.1]

/-- Words before blanks are cut off one by one, by induction on them. -/
theorem words_flatMap_append {blank : α → Bool} {space : α} (isBlank : blank space = true)
    {front : List (List α)} (solid : ∀ word ∈ front, IsWord blank word) (back : List α)
    : words blank (front.flatMap (· ++ [space]) ++ back) = front ++ words blank back := by
  induction front with
  | nil => rfl
  | cons first rest ih =>
      obtain ⟨here, later⟩ := List.forall_mem_cons.mp solid
      rw [List.flatMap_cons, List.append_assoc, List.append_assoc, List.singleton_append,
        words_append_cons here isBlank, ih later, List.cons_append]

/-- The beginning of a word is one word at most. -/
theorem words_of_prefix {blank : α → Bool} {word fragment : List α} (h : IsWord blank word)
    (beginning : fragment <+: word)
    : words blank fragment = if fragment = [] then [] else [fragment] := by
  split
  · rename_i empty
    rw [empty, words_nil]
  · rename_i solid
    exact words_of_isWord ⟨solid, fun x member => h.2 x (beginning.subset member)⟩

/-- Text that begins without a blank has a word in it. -/
theorem words_ne_nil {blank : α → Bool} {x : α} (solid : blank x = false) (rest : List α)
    : words blank (x :: rest) ≠ [] := by
  rw [words, List.splitOnP_cons_eq_if_modifyHead, if_neg (by simp [solid])]
  cases parts : rest.splitOnP blank with
  | nil => exact absurd parts (List.splitOnP_ne_nil _ _)
  | cons first others => simp

/-- Pieces between blanks hold no blank, by induction on the text. -/
theorem splitOnP_no_blank {blank : α → Bool} {text : List α}
    : ∀ piece ∈ text.splitOnP blank, ∀ x ∈ piece, blank x = false := by
  induction text with
  | nil => simp
  | cons head tail ih =>
      rw [List.splitOnP_cons_eq_if_modifyHead]
      split
      · simpa using ih
      · rename_i solid
        cases parts : tail.splitOnP blank with
        | nil => simp
        | cons first others =>
            rw [parts] at ih
            intro piece member x inside
            rcases List.mem_cons.mp member with rfl | later
            · rcases List.mem_cons.mp inside with rfl | inside
              · simpa using solid
              · exact ih first (by simp) x inside
            · exact ih piece (List.mem_cons_of_mem _ later) x inside

/-- Every word of a text is a word. -/
theorem isWord_of_mem_words {blank : α → Bool} {text word : List α}
    (member : word ∈ words blank text)
    : IsWord blank word := by
  obtain ⟨piece, solid⟩ := List.mem_filter.mp member
  exact ⟨by simpa using solid, splitOnP_no_blank word piece⟩

/-- Words joined by single blanks are cut apart again, by induction on them. -/
theorem words_intercalate {blank : α → Bool} {space : α} (isBlank : blank space = true)
    {parts : List (List α)} (solid : ∀ part ∈ parts, IsWord blank part)
    : words blank ([space].intercalate parts) = parts := by
  induction parts with
  | nil => rfl
  | cons first rest ih =>
      have later := ih fun part member => solid part (List.mem_cons_of_mem _ member)
      cases rest with
      | nil => simpa using words_of_isWord (solid first (by simp))
      | cons second others =>
          rw [List.intercalate_cons_cons, List.append_assoc, List.singleton_append,
            words_append_cons (solid first (by simp)) isBlank, later]

/-- What stands in joined parts is a separator or in one of them, by induction on them. -/
theorem mem_intercalate {space x : α} {parts : List (List α)}
    (member : x ∈ [space].intercalate parts)
    : x = space ∨ ∃ part ∈ parts, x ∈ part := by
  induction parts with
  | nil => simp at member
  | cons first rest ih =>
      cases rest with
      | nil => exact .inr ⟨first, by simp, by simpa using member⟩
      | cons second others =>
          rw [List.intercalate_cons_cons, List.append_assoc, List.singleton_append,
            List.mem_append, List.mem_cons] at member
          rcases member with inside | here | later
          · exact .inr ⟨first, by simp, inside⟩
          · exact .inl here
          · rcases ih later with here | ⟨part, among, inside⟩
            · exact .inl here
            · exact .inr ⟨part, List.mem_cons_of_mem _ among, inside⟩

-----------------------------------------------------------------------------------------
-- The texts that spell words
-----------------------------------------------------------------------------------------

/-- The words stand in the text one after another, with blanks between any two of them. -/
inductive Spells (blank : α → Bool) : List (List α) → List α → Prop
  | nil : Spells blank [] []
  | blank {tokens text x} (isBlank : blank x = true) (later : Spells blank tokens text)
    : Spells blank tokens (x :: text)
  | word {tokens text word} (solid : IsWord blank word)
    (ends : ∀ x ∈ text.head?, blank x = true) (later : Spells blank tokens text)
    : Spells blank (word :: tokens) (word ++ text)

variable {blank : α → Bool} {text : List α} {tokens : List (List α)}

theorem words_cons_blank {x : α} (isBlank : blank x = true) (text : List α)
    : words blank (x :: text) = words blank text := by
  rw [words, List.splitOnP_cons_eq_if_modifyHead, if_pos isBlank]
  rfl

/-- The words that are spelled are those that are cut off, by induction on the spelling. -/
theorem Spells.words_eq (spelled : Spells blank tokens text) : words blank text = tokens := by
  induction spelled with
  | nil => rfl
  | blank isBlank _ ih => rw [words_cons_blank isBlank, ih]
  | @word tokens text word solid ends _ ih =>
      cases text with
      | nil => rw [List.append_nil, words_of_isWord solid, ← ih, words_nil]
      | cons x text =>
          have isBlank : blank x = true := ends x rfl
          rw [words_append_cons solid isBlank, ← ih, words_cons_blank isBlank]

/-- Every text spells some words, by induction on it. Without a blank in front, it begins with a new
word or goes on in front of the one that the rest begins with.
-/
theorem exists_spells (blank : α → Bool) (text : List α) : ∃ tokens, Spells blank tokens text := by
  induction text with
  | nil => exact ⟨[], .nil⟩
  | cons x rest ih =>
      obtain ⟨tokens, spelled⟩ := ih
      cases here : blank x with
      | true => exact ⟨tokens, .blank here spelled⟩
      | false =>
          have alone : IsWord blank [x] :=
            ⟨List.cons_ne_nil x [], List.forall_mem_singleton.mpr here⟩
          cases spelled with
          | nil => exact ⟨[[x]], .word alone (by simp) .nil⟩
          | blank isBlank later =>
              exact ⟨[x] :: tokens, .word alone (by simpa using isBlank) (.blank isBlank later)⟩
          | @word tokens text word solid ends later =>
              have longer : IsWord blank (x :: word) :=
                ⟨List.cons_ne_nil x word, List.forall_mem_cons.mpr ⟨here, solid.2⟩⟩
              exact ⟨(x :: word) :: tokens, .word longer ends later⟩

/-- The words of a text are the only ones that it spells. -/
theorem words_eq_iff : words blank text = tokens ↔ Spells blank tokens text := by
  refine ⟨fun same => ?_, Spells.words_eq⟩
  obtain ⟨others, spelled⟩ := exists_spells blank text
  exact same ▸ spelled.words_eq ▸ spelled

end Delimited
