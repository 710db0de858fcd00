import InMemoryDB.Library.Decimal
import Mathlib.Data.List.TakeWhile

/-! Numerals as whole texts, with or without a sign, and in front of longer texts. -/

namespace Decimal

/-- The whole text is digits, one at least. -/
structure IsNumeral (text : List UInt8) : Prop where
  filled : text ≠ []
  digits : ∀ byte ∈ text, isDigit byte = true

theorem isNumeral_iff {text : List UInt8}
    : (!text.isEmpty && text.all isDigit) = true ↔ IsNumeral text := by
  rw [Bool.and_eq_true, Bool.not_eq_true', List.isEmpty_eq_false_iff, List.all_eq_true]
  exact ⟨fun both => ⟨both.1, both.2⟩, fun numeral => ⟨numeral.filled, numeral.digits⟩⟩

instance (text : List UInt8) : Decidable (IsNumeral text) := decidable_of_iff _ isNumeral_iff

/-- The whole text is the numeral of a number, with one sign in front at most. -/
inductive Denotes : List UInt8 → Int → Prop
  | plain {text : List UInt8} (numeral : IsNumeral text) : Denotes text (value text)
  | plus {text : List UInt8} (numeral : IsNumeral text) : Denotes (43 :: text) (value text)
  | minus {text : List UInt8} (numeral : IsNumeral text) : Denotes (45 :: text) (-value text)

/-- Behind the first byte there are digits only. -/
theorem Denotes.digits_of_mem_tail {text : List UInt8} {number : Int}
    (denotes : Denotes text number)
    : ∀ byte ∈ text.tail, isDigit byte = true := by
  cases denotes with
  | plain numeral => exact fun byte member => numeral.digits byte (List.mem_of_mem_tail member)
  | plus numeral => exact numeral.digits
  | minus numeral => exact numeral.digits

theorem Denotes.ne_nil {text : List UInt8} {number : Int} (denotes : Denotes text number)
    : text ≠ [] := by
  cases denotes with
  | plain numeral => exact numeral.filled
  | plus numeral => exact List.cons_ne_nil _ _
  | minus numeral => exact List.cons_ne_nil _ _

/-- The digits in front of other text are taken as a whole. -/
theorem IsNumeral.takeWhile_append {digits rest : List UInt8} (numeral : IsNumeral digits)
    (ends : ∀ byte ∈ rest.head?, isDigit byte = false)
    : (digits ++ rest).takeWhile isDigit = digits := by
  rw [List.takeWhile_append_of_pos numeral.digits]
  cases rest with
  | nil => simp
  | cons byte rest => simp [ends byte rfl]

/-- What the leading digits of a text leave does not begin with one. -/
theorem head_dropWhile (text : List UInt8)
    : ∀ byte ∈ (text.dropWhile isDigit).head?, isDigit byte = false := by
  intro byte first
  have stops := List.head?_dropWhile_not isDigit text
  rw [Option.mem_def.mp first] at stops
  simpa using stops

theorem isNumeral_takeWhile {text : List UInt8} (filled : text.takeWhile isDigit ≠ [])
    : IsNumeral (text.takeWhile isDigit) :=
  ⟨filled, fun _ => List.mem_takeWhile_imp⟩

/-- A whole numeral does not have a shorter one in front, with something else than a digit behind
that.
-/
theorem Denotes.rest_eq_nil {text numeral rest : List UInt8} {number number' : Int}
    (whole : Denotes text number) (front : Denotes numeral number')
    (same : text = numeral ++ rest) (ends : ∀ byte ∈ rest.head?, isDigit byte = false)
    : rest = [] := by
  cases rest with
  | nil => rfl
  | cons byte rest =>
      have behind : byte ∈ text.tail := by
        rw [same, List.tail_append_of_ne_nil front.ne_nil]
        exact List.mem_append_right _ List.mem_cons_self
      have digit := whole.digits_of_mem_tail byte behind
      rw [ends byte rfl] at digit
      cases digit

end Decimal
