import InMemoryDB.Core.CommandFactory
import InMemoryDB.Library.Numerals

/-! The memory limit of the configuration: what is made of a text, and of which texts it is what
they say.
-/

namespace InMemoryDB

/-- The exception for a text that is not taken. -/
structure InvalidArgument where
  what : Bytes
  deriving DecidableEq

/-- `std::stoull` to base ten: a sign is taken, and a negative number wraps around. The two
exceptions it throws are caught alike.
-/
def stoull (text : Bytes) : Option UInt64 :=
  let cut := cutSign (text.dropWhile isSpace)
  let digits := cut.2.takeWhile Decimal.isDigit
  let magnitude := Decimal.value digits
  if digits = [] then none
  else if 2 ^ 64 ≤ magnitude then none
  else some (if cut.1 then -UInt64.ofNat magnitude else UInt64.ofNat magnitude)

namespace ServerBuilder

/-- The numeric part of an upper-case text, and the multiplier of its last two letters. -/
def cutUnit (upper : Bytes) : Bytes × UInt64 :=
  if ascii "GB" <:+ upper then (upper.take (upper.length - 2), 1024 * 1024 * 1024)
  else if ascii "MB" <:+ upper then (upper.take (upper.length - 2), 1024 * 1024)
  else if ascii "KB" <:+ upper then (upper.take (upper.length - 2), 1024)
  else (upper, 1)

def numeric (limit : Bytes) : Bytes := (cutUnit (limit.map toUpper)).1

def multiplier (limit : Bytes) : UInt64 := (cutUnit (limit.map toUpper)).2

def parseMemoryLimit (limit : Bytes) : Except InvalidArgument UInt64 :=
  match stoull (numeric limit) with
  | some number => .ok (number * multiplier limit)
  | none => .error ⟨ascii "Invalid memory limit: " ++ limit⟩

-----------------------------------------------------------------------------------------
-- What a limit should be
-----------------------------------------------------------------------------------------

/-- The units with their names in upper case. -/
def units : List (Bytes × ℕ) :=
  [([], 1), (ascii "KB", 2 ^ 10), (ascii "MB", 2 ^ 20), (ascii "GB", 2 ^ 30)]

/-- The text is the numeral of a number and the name of a unit in any case, if it has one; they
denote their product.
-/
def DenotesAmount (limit : Bytes) (amount : ℕ) : Prop :=
  ∃ digits suffix unit,
    limit = digits ++ suffix
    ∧ Decimal.IsNumeral digits
    ∧ (suffix.map toUpper, unit) ∈ units
    ∧ amount = Decimal.value digits * unit

/-- An amount is returned exactly if the text denotes it; otherwise there is the exception. -/
def ExactOrFails (limit : Bytes) : Prop :=
  ∀ amount, parseMemoryLimit limit = .ok amount ↔ DenotesAmount limit amount.toNat

/-- The digits that are read of a text. -/
def leadingDigits (text : Bytes) : Bytes :=
  (cutSign (text.dropWhile isSpace)).2.takeWhile Decimal.isDigit

/-- No numeral can be read of the numeric part at all, or one that does not fit. -/
def Unread (limit : Bytes) : Prop :=
  leadingDigits (numeric limit) = [] ∨ 2 ^ 64 ≤ Decimal.value (leadingDigits (numeric limit))

/-- Nothing is read, or the numeric part is a numeral as a whole and its product with the unit fits.
-/
def ReadsRight (limit : Bytes) : Prop :=
  Unread limit
  ∨ leadingDigits (numeric limit) = numeric limit
    ∧ Decimal.value (numeric limit) * (multiplier limit).toNat < 2 ^ 64

-----------------------------------------------------------------------------------------
-- The unit
-----------------------------------------------------------------------------------------

/-- Capital letters are no digits, and digits have no capitals. -/
theorem toUpper_eq_of_isDigit {byte : UInt8}
    (digit : Decimal.isDigit byte = true ∨ Decimal.isDigit (toUpper byte) = true)
    : toUpper byte = byte := by
  have spelled
      : (97 : UInt8).toNat = 97 ∧ (122 : UInt8).toNat = 122 ∧ (32 : UInt8).toNat = 32
        ∧ (48 : UInt8).toNat = 48 ∧ (57 : UInt8).toNat = 57 := by decide
  by_cases letter : 97 ≤ byte ∧ byte ≤ 122
  · have shifted : (byte - 32).toNat = byte.toNat - 32 := by
      apply UInt8.toNat_sub_of_le
      rw [UInt8.le_iff_toNat_le] at letter ⊢
      omega
    rw [toUpper, if_pos letter] at digit
    simp only [Decimal.isDigit, Bool.and_eq_true, decide_eq_true_eq, UInt8.le_iff_toNat_le,
      shifted] at digit letter
    omega
  · exact if_neg letter

theorem map_toUpper_of_isNumeral {digits : Bytes} (numeral : Decimal.IsNumeral digits)
    : digits.map toUpper = digits := by
  have each : ∀ byte ∈ digits, toUpper byte = id byte :=
    fun byte member => toUpper_eq_of_isDigit (.inl (numeral.digits byte member))
  rw [List.map_congr_left each, List.map_id]

/-- What has digits for capitals is these digits. -/
theorem eq_of_map_toUpper {text : Bytes} (numeral : Decimal.IsNumeral (text.map toUpper))
    : text.map toUpper = text := by
  have each : ∀ byte ∈ text, toUpper byte = id byte :=
    fun byte member =>
      toUpper_eq_of_isDigit (.inr (numeral.digits _ (List.mem_map_of_mem member)))
  rw [List.map_congr_left each, List.map_id]

/-- A text that ends in one name of a unit does not end in another one. -/
theorem not_suffix_append {name mark : Bytes} (text : Bytes) (length : name.length = mark.length)
    (different : name ≠ mark)
    : ¬ name <:+ text ++ mark := by
  rintro ⟨front, same⟩
  exact different (List.append_inj' same length).2

theorem take_append_mark (text : Bytes) {mark : Bytes} (length : mark.length = 2)
    : (text ++ mark).take ((text ++ mark).length - 2) = text := by
  rw [List.length_append, length, Nat.add_sub_cancel, List.take_left]

/-- Behind a numeral the unit is found that is there. -/
theorem cutUnit_append {digits mark : Bytes} {unit : ℕ} (numeral : Decimal.IsNumeral digits)
    (known : (mark, unit) ∈ units)
    : cutUnit (digits ++ mark) = (digits, UInt64.ofNat unit) := by
  have unnamed {name : Bytes} (letter : (66 : UInt8) ∈ name) : ¬ name <:+ digits := by
    intro suffix
    exact absurd (numeral.digits 66 (suffix.subset letter)) (by decide)
  simp only [units, List.mem_cons, Prod.mk.injEq, List.not_mem_nil, or_false] at known
  rcases known with ⟨rfl, rfl⟩ | ⟨rfl, rfl⟩ | ⟨rfl, rfl⟩ | ⟨rfl, rfl⟩
  · rw [List.append_nil, cutUnit, if_neg (unnamed (by decide)), if_neg (unnamed (by decide)),
      if_neg (unnamed (by decide))]
    rfl
  · rw [cutUnit, if_neg (not_suffix_append digits (by decide) (by decide)),
      if_neg (not_suffix_append digits (by decide) (by decide)),
      if_pos (List.suffix_append digits _), take_append_mark digits rfl]
    rfl
  · rw [cutUnit, if_neg (not_suffix_append digits (by decide) (by decide)),
      if_pos (List.suffix_append digits _), take_append_mark digits rfl]
    rfl
  · rw [cutUnit, if_pos (List.suffix_append digits _), take_append_mark digits rfl]
    rfl

/-- What is cut off is the name of a unit, or nothing. -/
theorem exists_mark (upper : Bytes)
    : ∃ mark, upper = (cutUnit upper).1 ++ mark ∧ (mark, (cutUnit upper).2.toNat) ∈ units := by
  have named {name : Bytes} (length : name.length = 2) (suffix : name <:+ upper)
      : upper = upper.take (upper.length - 2) ++ name := by
    obtain ⟨front, rfl⟩ := suffix
    rw [take_append_mark front length]
  unfold cutUnit
  split_ifs with gb mb kb
  · exact ⟨_, named rfl gb, show (ascii "GB", 2 ^ 30) ∈ units by decide⟩
  · exact ⟨_, named rfl mb, show (ascii "MB", 2 ^ 20) ∈ units by decide⟩
  · exact ⟨_, named rfl kb, show (ascii "KB", 2 ^ 10) ∈ units by decide⟩
  · exact ⟨[], (List.append_nil upper).symm, show ([], 1) ∈ units by decide⟩

/-- A text denotes an amount exactly if its numeric part is a numeral. -/
theorem denotesAmount_iff {limit : Bytes} {amount : ℕ}
    : DenotesAmount limit amount
      ↔ Decimal.IsNumeral (numeric limit)
        ∧ amount = Decimal.value (numeric limit) * (multiplier limit).toNat := by
  constructor
  · rintro ⟨digits, suffix, unit, rfl, numeral, known, rfl⟩
    have bounded : unit < 2 ^ 64 := by
      simp only [units, List.mem_cons, Prod.mk.injEq, List.not_mem_nil, or_false] at known
      omega
    rw [numeric, multiplier, List.map_append, map_toUpper_of_isNumeral numeral,
      cutUnit_append numeral known]
    exact ⟨numeral, by rw [UInt64.toNat_ofNat_of_lt' bounded]⟩
  · rintro ⟨numeral, rfl⟩
    obtain ⟨mark, upper, known⟩ := exists_mark (limit.map toUpper)
    obtain ⟨digits, suffix, rfl, front, back⟩ := List.map_eq_append_iff.mp upper
    change digits.map toUpper = numeric (digits ++ suffix) at front
    rw [← front] at numeral
    have plain := eq_of_map_toUpper numeral
    refine ⟨digits, suffix, _, rfl, plain ▸ numeral, back ▸ known, ?_⟩
    rw [← front, plain]
    rfl

/-- A unit is a number, and not zero. -/
theorem one_le_multiplier (limit : Bytes) : 1 ≤ (multiplier limit).toNat := by
  obtain ⟨mark, -, known⟩ := exists_mark (limit.map toUpper)
  simp only [units, List.mem_cons, Prod.mk.injEq, List.not_mem_nil, or_false] at known
  rw [multiplier]
  omega

-----------------------------------------------------------------------------------------
-- The number
-----------------------------------------------------------------------------------------

/-- A numeral is its own leading digits, and has no sign. -/
theorem cutSign_of_isNumeral {digits : Bytes} (numeral : Decimal.IsNumeral digits)
    : cutSign (digits.dropWhile isSpace) = (false, digits) ∧ leadingDigits digits = digits := by
  have solid : digits.dropWhile isSpace = digits := by
    apply dropWhile_of_head
    intro byte first
    exact (isDigit_ne_sign (numeral.digits byte (List.mem_of_mem_head? first))).2.2
  have unsigned := cutSign_of_digits numeral.digits
  rw [leadingDigits, solid, unsigned]
  exact ⟨rfl, List.takeWhile_eq_self_iff.mpr numeral.digits⟩

variable {limit : Bytes}

/-- Where nothing that fits is read there is the exception. -/
theorem parseMemoryLimit_unread (unread : Unread limit) (amount : UInt64)
    : parseMemoryLimit limit ≠ .ok amount := by
  have failed : stoull (numeric limit) = none := by
    rcases unread with empty | large
    · exact if_pos empty
    · rw [stoull]
      exact ite_eq_left_iff.mpr fun _ => if_pos large
  intro same
  rw [parseMemoryLimit, failed] at same
  cases same

/-- And such a text denotes no amount that there is a word for. -/
theorem not_denotesAmount_unread (unread : Unread limit) (amount : UInt64)
    : ¬ DenotesAmount limit amount.toNat := by
  rw [denotesAmount_iff]
  rintro ⟨numeral, product⟩
  rw [Unread, (cutSign_of_isNumeral numeral).2] at unread
  rcases unread with empty | large
  · exact numeral.filled empty
  · have whole := Nat.mul_le_mul large (one_le_multiplier limit)
    have word := amount.toNat_lt
    omega

/-- Otherwise the number that is read is multiplied by the unit, as words are. -/
theorem parseMemoryLimit_read (read : ¬ Unread limit)
    : ∃ word, parseMemoryLimit limit = .ok (word * multiplier limit)
      ∧ (Decimal.IsNumeral (numeric limit) → word.toNat = Decimal.value (numeric limit)) := by
  obtain ⟨filled, fits⟩ := not_or.mp read
  have taken
      : ∃ word, stoull (numeric limit) = some word
        ∧ word
          = if (cutSign ((numeric limit).dropWhile isSpace)).1
            then -UInt64.ofNat (Decimal.value (leadingDigits (numeric limit)))
            else UInt64.ofNat (Decimal.value (leadingDigits (numeric limit))) :=
    ⟨_, (if_neg filled).trans (if_neg fits), rfl⟩
  obtain ⟨word, number, signed⟩ := taken
  refine ⟨word, by rw [parseMemoryLimit, number], fun numeral => ?_⟩
  obtain ⟨unsigned, whole⟩ := cutSign_of_isNumeral numeral
  rw [whole] at fits signed
  rw [signed, unsigned]
  exact UInt64.toNat_ofNat_of_lt' (Nat.not_le.mp fits)

/-- A limit is read as the amount it denotes, or not at all, exactly if its numeral fits or cannot
be read: a text with more in it than a numeral and a unit is read as if it ended early.
-/
theorem exactOrFails_iff (limit : Bytes) : ExactOrFails limit ↔ ReadsRight limit := by
  by_cases unread : Unread limit
  · constructor
    · intro _
      exact .inl unread
    · intro _ amount
      exact iff_of_false (parseMemoryLimit_unread unread amount)
        (not_denotesAmount_unread unread amount)
  · obtain ⟨word, parsed, exactly⟩ := parseMemoryLimit_read unread
    constructor
    · intro right
      obtain ⟨numeral, product⟩ := denotesAmount_iff.mp ((right _).mp parsed)
      refine .inr ⟨(cutSign_of_isNumeral numeral).2, ?_⟩
      rw [← product]
      exact UInt64.toNat_lt _
    · rintro (nothing | ⟨whole, product⟩)
      · exact absurd nothing unread
      · have numeral : Decimal.IsNumeral (numeric limit) := by
          rw [← whole]
          exact Decimal.isNumeral_takeWhile (not_or.mp unread).1
        have multiplied
            : (word * multiplier limit).toNat
              = Decimal.value (numeric limit) * (multiplier limit).toNat := by
          rw [UInt64.toNat_mul, exactly numeral, Nat.mod_eq_of_lt product]
        intro amount
        rw [parsed, Except.ok.injEq, denotesAmount_iff, ← multiplied, UInt64.toNat_inj]
        exact ⟨fun same => ⟨numeral, same.symm⟩, fun same => same.2.symm⟩

/-- One and a half are read as one: the multiplier of the unit is kept, the fraction is not. -/
theorem exactOrFails_fails : ¬ ExactOrFails (ascii "1.5GB") := by
  intro right
  have parsed : parseMemoryLimit (ascii "1.5GB") = .ok (1024 * 1024 * 1024) := by decide
  have numeral := (denotesAmount_iff.mp ((right _).mp parsed)).1
  exact absurd numeral (by decide)

end ServerBuilder

end InMemoryDB
