import Mathlib.Data.BitVec

/-! Steps that mix a word without losing any of it: each is injective. -/

namespace WordMixing

variable {width : ℕ}

/-- A product with a factor that has an inverse can be undone. -/
theorem mul_injective {factor inverse : BitVec width}
    (unit : factor * inverse = BitVec.ofNat width 1)
    : Function.Injective fun word : BitVec width => word * factor := by
  intro word word' same
  calc
    word = word * factor * inverse := by rw [BitVec.mul_assoc, unit, BitVec.mul_one]
    _ = word' * factor * inverse := congrArg (· * inverse) same
    _ = word' := by rw [BitVec.mul_assoc, unit, BitVec.mul_one]

/-- The two shifts of a rotation have no bit in common, and every bit is in one of them. -/
theorem rotate_injective {left right : ℕ} (whole : left + right = width)
    : Function.Injective fun word : BitVec width => word <<< left ||| word >>> right := by
  intro word word' same
  apply BitVec.eq_of_getLsbD_eq
  intro index bound
  by_cases high : right ≤ index
  · have bit := congrArg (fun word : BitVec width => word.getLsbD (index - right)) same
    have low : index - right < left := by omega
    simpa [low, Nat.add_sub_cancel' high] using bit
  · have bit := congrArg (fun word : BitVec width => word.getLsbD (index + left)) same
    have inside : index + left < width := by omega
    have shifted : ¬ index + left < left := by omega
    have beyond : width ≤ right + (index + left) := by omega
    simpa [inside, shifted, beyond, BitVec.getLsbD_eq_getElem bound] using bit

/-- A difference that a shift to the right leaves alone is none. -/
theorem eq_zero_of_shiftRight {shift : ℕ} (positive : 0 < shift) {word : BitVec width}
    (same : word >>> shift = word)
    : word = BitVec.ofNat width 0 := by
  have number := congrArg BitVec.toNat same
  rw [BitVec.toNat_ushiftRight, Nat.shiftRight_eq_div_pow] at number
  apply BitVec.eq_of_toNat_eq
  rw [BitVec.toNat_zero]
  by_contra nonzero
  have smaller := Nat.div_lt_self (Nat.pos_of_ne_zero nonzero) (Nat.one_lt_two_pow positive.ne')
  omega

/-- Two words with the same mixture have a difference that the shift leaves alone. -/
theorem xorShift_injective {shift : ℕ} (positive : 0 < shift)
    : Function.Injective fun word : BitVec width => word ^^^ word >>> shift := by
  intro word word' same
  have shifted : (word ^^^ word') >>> shift = word ^^^ word' := by
    calc
      (word ^^^ word') >>> shift = word >>> shift ^^^ word' >>> shift :=
        BitVec.ushiftRight_xor_distrib ..
      _ = word ^^^ (word ^^^ word >>> shift) ^^^ word' >>> shift := by
        rw [← BitVec.xor_assoc word, BitVec.xor_self, BitVec.zero_xor]
      _ = word ^^^ (word' ^^^ word' >>> shift) ^^^ word' >>> shift :=
        congrArg (word ^^^ · ^^^ word' >>> shift) same
      _ = word ^^^ word' := by
        rw [BitVec.xor_assoc, BitVec.xor_assoc, BitVec.xor_self, BitVec.xor_zero]
  exact BitVec.xor_eq_zero_iff.mp (eq_zero_of_shiftRight positive shifted)

end WordMixing
