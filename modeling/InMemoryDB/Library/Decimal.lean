import Mathlib.Data.Nat.Digits.Defs
import Mathlib.Data.Nat.Digits.Lemmas

/-! Decimal numerals as ASCII bytes, printed and read. -/

namespace Decimal

/-- The ASCII digits `0` to `9`. -/
def isDigit (byte : UInt8) : Bool := 48 ≤ byte && byte ≤ 57

/-- The digit that stands for a number below ten. -/
def digit (value : ℕ) : UInt8 := UInt8.ofNat (48 + value)

/-- The shortest numeral of a number, most significant digit first. -/
def print (number : ℕ) : List UInt8 :=
  if number = 0 then [48] else ((Nat.digits 10 number).map digit).reverse

/-- The number a digit string denotes. -/
def value (digits : List UInt8) : ℕ :=
  Nat.ofDigits 10 (digits.reverse.map fun byte => byte.toNat - 48)

theorem isDigit_digit {value : ℕ} (small : value < 10) : isDigit (digit value) = true := by
  interval_cases value <;> rfl

theorem digit_toNat {value : ℕ} (small : value < 10) : (digit value).toNat - 48 = value := by
  interval_cases value <;> rfl

/-- A printed numeral has digits only, since the digits of a number are below its base. -/
theorem isDigit_of_mem_print {number : ℕ} {byte : UInt8} (member : byte ∈ print number)
    : isDigit byte = true := by
  unfold print at member
  split at member
  · obtain rfl := List.mem_singleton.mp member
    rfl
  · obtain ⟨value, among, rfl⟩ := List.mem_map.mp (List.mem_reverse.mp member)
    exact isDigit_digit (Nat.digits_lt_base (by decide) among)

theorem print_ne_nil (number : ℕ) : print number ≠ [] := by
  unfold print
  split
  · simp
  · rename_i positive
    simpa [Nat.digits_eq_nil_iff_eq_zero] using positive

/-- Reading a printed numeral gives its number back, digit by digit. -/
theorem value_print (number : ℕ) : value (print number) = number := by
  unfold print
  split
  · rename_i zero
    rw [zero]
    rfl
  · have each : ∀ value ∈ Nat.digits 10 number,
        ((fun byte : UInt8 => byte.toNat - 48) ∘ digit) value = id value :=
      fun value among => digit_toNat (Nat.digits_lt_base (by decide) among)
    rw [value, List.reverse_reverse, List.map_map, List.map_congr_left each, List.map_id,
      Nat.ofDigits_digits]

end Decimal
