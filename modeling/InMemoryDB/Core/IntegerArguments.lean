import InMemoryDB.Core.CommandFactory
import InMemoryDB.Library.Numerals

/-! What the factory makes of the integers among its tokens, for all tokens. -/

namespace InMemoryDB

-----------------------------------------------------------------------------------------
-- The numbers that are read
-----------------------------------------------------------------------------------------

/-- The token is, as a whole, the numeral of a number that fits. -/
def IsInteger (token : Bytes) (number : Int) : Prop :=
  Decimal.Denotes token number ∧ InInt64 number

/-- Blanks, the numeral of a number that fits, and something else that is left over. -/
structure Reading (token : Bytes) (number : Int) (blanks rest : Bytes) : Prop where
  numeral
    : ∃ numeral, token = blanks ++ (numeral ++ rest) ∧ Decimal.Denotes numeral number
  blank : ∀ byte ∈ blanks, isSpace byte = true
  ends : ∀ byte ∈ rest.head?, Decimal.isDigit byte = false
  fits : InInt64 number

/-- The numeral of a number is read from a part of the token that is not the whole of it. -/
def Misread (token : Bytes) (number : Int) : Prop :=
  ∃ blanks rest, Reading token number blanks rest ∧ (blanks ≠ [] ∨ rest ≠ [])

/-- There is a sign to cut off, or the text is left as it is. -/
theorem cutSign_cases (text : Bytes)
    : (∃ digits, text = 45 :: digits ∧ cutSign text = (true, digits))
      ∨ (∃ digits, text = 43 :: digits ∧ cutSign text = (false, digits))
      ∨ cutSign text = (false, text) := by
  unfold cutSign
  split
  · exact .inl ⟨_, rfl, rfl⟩
  · exact .inr (.inl ⟨_, rfl, rfl⟩)
  · exact .inr (.inr rfl)

/-- The number that a sign and a magnitude stand for. -/
def signed (negative : Bool) (magnitude : ℕ) : Int :=
  if negative then -(magnitude : Int) else magnitude

/-- In front of other text the sign of a numeral is cut off, and the digits stay. -/
theorem cutSign_append {numeral : Bytes} {number : Int}
    (denotes : Decimal.Denotes numeral number) (rest : Bytes)
    : ∃ negative digits,
        cutSign (numeral ++ rest) = (negative, digits ++ rest)
        ∧ Decimal.IsNumeral digits
        ∧ number = signed negative (Decimal.value digits) := by
  cases denotes with
  | plus digits => exact ⟨false, _, rfl, digits, rfl⟩
  | minus digits => exact ⟨true, _, rfl, digits, rfl⟩
  | plain digits =>
      refine ⟨false, numeral, ?_, digits, rfl⟩
      obtain ⟨head, tail, rfl⟩ := List.exists_cons_of_ne_nil digits.filled
      obtain ⟨notMinus, notPlus, -⟩ := isDigit_ne_sign (digits.digits head (by simp))
      rcases cutSign_cases (head :: tail ++ rest) with
        ⟨_, sign, -⟩ | ⟨_, sign, -⟩ | unsigned
      · exact absurd (List.cons.inj sign).1 notMinus
      · exact absurd (List.cons.inj sign).1 notPlus
      · exact unsigned

/-- The sign that was cut off and the digits behind it are a numeral. -/
theorem exists_numeral {text : Bytes}
    (filled : (cutSign text).2.takeWhile Decimal.isDigit ≠ [])
    : ∃ numeral,
        text = numeral ++ (cutSign text).2.dropWhile Decimal.isDigit
        ∧ Decimal.Denotes numeral
            (signed (cutSign text).1
              (Decimal.value ((cutSign text).2.takeWhile Decimal.isDigit))) := by
  have digits := Decimal.isNumeral_takeWhile filled
  have parts := @List.takeWhile_append_dropWhile _ Decimal.isDigit (cutSign text).2
  rcases cutSign_cases text with ⟨rest, sign, cut⟩ | ⟨rest, sign, cut⟩ | cut
  · rw [cut] at digits parts ⊢
    exact ⟨_, sign.trans (congrArg (45 :: ·) parts.symm), .minus digits⟩
  · rw [cut] at digits parts ⊢
    exact ⟨_, sign.trans (congrArg (43 :: ·) parts.symm), .plus digits⟩
  · rw [cut] at digits parts ⊢
    exact ⟨_, parts.symm, .plain digits⟩

/-- A numeral begins with a sign or a digit. -/
theorem isSpace_head {numeral : Bytes} {number : Int} (denotes : Decimal.Denotes numeral number)
    : ∀ byte ∈ numeral.head?, isSpace byte = false := by
  intro byte first
  cases denotes with
  | plain digits =>
      exact (isDigit_ne_sign (digits.digits byte (List.mem_of_mem_head? first))).2.2
  | plus digits =>
      obtain rfl := Option.some.inj first
      rfl
  | minus digits =>
      obtain rfl := Option.some.inj first
      rfl

/-- `stoll` reads the numeral behind the blanks in front, and leaves what follows it. -/
theorem stoll_eq_some {token : Bytes} {number : Int}
    : stoll token = some number ↔ ∃ blanks rest, Reading token number blanks rest := by
  constructor
  · intro read
    simp only [stoll, Option.ite_none_left_eq_some, Option.ite_none_right_eq_some,
      Option.some.injEq] at read
    obtain ⟨filled, fits, same⟩ := read
    obtain ⟨numeral, whole, denotes⟩ := exists_numeral filled
    rw [signed, same] at denotes
    refine ⟨token.takeWhile isSpace,
      (cutSign (token.dropWhile isSpace)).2.dropWhile Decimal.isDigit,
      ⟨numeral, ?_, denotes⟩, fun _ => List.mem_takeWhile_imp, Decimal.head_dropWhile _,
      same ▸ fits⟩
    rw [← whole, List.takeWhile_append_dropWhile]
  · rintro ⟨blanks, rest, ⟨numeral, rfl, denotes⟩, blank, ends, fits⟩
    have solid : (numeral ++ rest).dropWhile isSpace = numeral ++ rest := by
      apply dropWhile_of_head
      rw [List.head?_append_of_ne_nil _ denotes.ne_nil]
      exact isSpace_head denotes
    obtain ⟨negative, digits, cut, isNumeral, rfl⟩ := cutSign_append denotes rest
    simp only [signed] at fits
    simp only [stoll, List.dropWhile_append_of_pos blank, solid, cut,
      isNumeral.takeWhile_append ends, isNumeral.filled, fits, if_false, if_true, signed]

/-- A token is read as a number if it is its numeral, or is misread. -/
theorem stoll_eq_some_iff {token : Bytes} {number : Int}
    : stoll token = some number ↔ IsInteger token number ∨ Misread token number := by
  rw [stoll_eq_some]
  constructor
  · rintro ⟨blanks, rest, reading⟩
    by_cases part : blanks ≠ [] ∨ rest ≠ []
    · exact .inr ⟨blanks, rest, reading, part⟩
    · obtain ⟨rfl, rfl⟩ := by simpa [not_or] using part
      obtain ⟨numeral, rfl, denotes⟩ := reading.numeral
      exact .inl ⟨by simpa using denotes, reading.fits⟩
  · rintro (⟨denotes, fits⟩ | ⟨blanks, rest, reading, -⟩)
    · exact ⟨[], [], ⟨token, by simp, denotes⟩, by simp, by simp, fits⟩
    · exact ⟨blanks, rest, reading⟩

/-- A numeral is not misread. -/
theorem IsInteger.not_misread {token : Bytes} {number number' : Int}
    (integer : IsInteger token number)
    : ¬ Misread token number' := by
  rintro ⟨blanks, rest, ⟨⟨numeral, rfl, denotes⟩, blank, ends, -⟩, part⟩
  cases blanks with
  | nil =>
      rw [List.nil_append] at integer
      have nothing := integer.1.rest_eq_nil denotes rfl ends
      exact part.elim (absurd rfl) (absurd nothing)
  | cons byte blanks =>
      have solid := isSpace_head integer.1 byte rfl
      rw [blank byte List.mem_cons_self] at solid
      cases solid

-----------------------------------------------------------------------------------------
-- The commands that have them
-----------------------------------------------------------------------------------------

namespace CommandFactory

/-- The verb alone decides that a request is a slice of a list, or none. -/
theorem parse_lrange {verb key first second : Bytes} {rest : List Bytes}
    (upper : verb.map toUpper = ascii "LRANGE")
    : parse (verb :: key :: first :: second :: rest)
      = (stoll first).bind fun start => (stoll second).map fun stop => .lrange key start stop := by
  simp only [parse, upper]
  cases stoll first with
  | none => rfl
  | some start => cases stoll second <;> rfl

theorem parse_eq_lrange {tokens : List Bytes} {key : Bytes} {start stop : Int}
    : parse tokens = some (.lrange key start stop)
      ↔ ∃ verb first second rest,
          tokens = verb :: key :: first :: second :: rest
          ∧ verb.map toUpper = ascii "LRANGE"
          ∧ stoll first = some start
          ∧ stoll second = some stop := by
  constructor
  · intro parsed
    cases parses_of_parse parsed with
    | lrange named read read' => exact ⟨_, _, _, _, rfl, named, read, read'⟩
  · rintro ⟨verb, first, second, rest, rfl, upper, read, read'⟩
    rw [parse_lrange upper, read, read']
    rfl

theorem parse_eq_set {tokens : List Bytes} {key value : Bytes} {ttl : Int}
    : parse tokens = some (.set key value ttl)
      ↔ ∃ verb rest,
          tokens = verb :: key :: value :: rest
          ∧ verb.map toUpper = ascii "SET"
          ∧ setTtl rest = ttl := by
  constructor
  · intro parsed
    cases parses_of_parse parsed with
    | set named => exact ⟨_, _, rfl, named, rfl⟩
  · rintro ⟨verb, rest, rfl, upper, rfl⟩
    simp only [parse, upper]
    rfl

/-- What a `SET` should make of the tokens behind its value. -/
def TtlMeant : List Bytes → Int → Prop
  | [], ttl => ttl = defaultTtl
  | token :: _, ttl =>
      IsInteger token ttl ∨ (∀ number, ¬ IsInteger token number) ∧ ttl = defaultTtl

/-- The integers of a request are read as a whole or not at all. -/
structure ReadsWhole (tokens : List Bytes) : Prop where
  indices
    : ∀ key start stop,
        parse tokens = some (.lrange key start stop)
        → ∃ verb first second rest,
            tokens = verb :: key :: first :: second :: rest
            ∧ IsInteger first start
            ∧ IsInteger second stop
  rejected
    : ∀ verb arguments,
        tokens = verb :: arguments
        → verb.map toUpper = ascii "LRANGE"
        → (∀ key first second rest start stop,
            arguments = key :: first :: second :: rest
            → ¬ (IsInteger first start ∧ IsInteger second stop))
        → parse tokens = none
  ttl
    : ∀ key value ttl,
        parse tokens = some (.set key value ttl)
        → ∃ verb rest, tokens = verb :: key :: value :: rest ∧ TtlMeant rest ttl

/-- No index is misread beside one that is read, and no time to live is misread as another one
than the default.
-/
structure NoneMisread (tokens : List Bytes) : Prop where
  indices
    : ∀ verb key first second rest,
        tokens = verb :: key :: first :: second :: rest
        → verb.map toUpper = ascii "LRANGE"
        → ∀ start stop,
            stoll first = some start
            → stoll second = some stop
            → ¬ Misread first start ∧ ¬ Misread second stop
  ttl
    : ∀ verb key value token rest,
        tokens = verb :: key :: value :: token :: rest
        → verb.map toUpper = ascii "SET"
        → ∀ ttl, Misread token ttl → ttl = defaultTtl

theorem ReadsWhole.noneMisread {tokens : List Bytes} (whole : ReadsWhole tokens)
    : NoneMisread tokens := by
  constructor
  · rintro verb key first second rest rfl upper start stop read read'
    have parsed
        : parse (verb :: key :: first :: second :: rest) = some (.lrange key start stop) :=
      parse_eq_lrange.mpr ⟨verb, first, second, rest, rfl, upper, read, read'⟩
    obtain ⟨_, _, _, _, same, integer, integer'⟩ := whole.indices key start stop parsed
    obtain ⟨rfl, rfl, rfl, rfl⟩ := by simpa using same
    exact ⟨integer.not_misread, integer'.not_misread⟩
  · rintro verb key value token rest rfl upper ttl misread
    have read := stoll_eq_some_iff.mpr (.inr misread)
    have parsed : parse (verb :: key :: value :: token :: rest) = some (.set key value ttl) := by
      refine parse_eq_set.mpr ⟨verb, token :: rest, rfl, upper, ?_⟩
      rw [setTtl, read, Option.getD_some]
    obtain ⟨_, _, same, meant⟩ := whole.ttl key value ttl parsed
    obtain ⟨rfl, rfl⟩ := by simpa using same
    rcases meant with integer | ⟨-, usual⟩
    · exact absurd misread integer.not_misread
    · exact usual

namespace NoneMisread

variable {tokens : List Bytes}

/-- Two indices that are both read are both read as a whole. -/
theorem isInteger (well : NoneMisread tokens) {verb key first second : Bytes}
    {rest : List Bytes} {start stop : Int}
    (shape : tokens = verb :: key :: first :: second :: rest)
    (upper : verb.map toUpper = ascii "LRANGE") (read : stoll first = some start)
    (read' : stoll second = some stop)
    : IsInteger first start ∧ IsInteger second stop := by
  obtain ⟨well, well'⟩ := well.indices verb key first second rest shape upper start stop read read'
  exact ⟨(stoll_eq_some_iff.mp read).resolve_right well,
    (stoll_eq_some_iff.mp read').resolve_right well'⟩

/-- A time to live that is read is that of the whole token, or the default anyway. -/
theorem ttlMeant (well : NoneMisread tokens) {verb key value : Bytes} {rest : List Bytes}
    (shape : tokens = verb :: key :: value :: rest) (upper : verb.map toUpper = ascii "SET")
    : TtlMeant rest (setTtl rest) := by
  cases rest with
  | nil => rfl
  | cons token rest =>
      rw [setTtl]
      cases read : stoll token with
      | none =>
          refine .inr ⟨fun number integer => ?_, rfl⟩
          rw [stoll_eq_some_iff.mpr (.inl integer)] at read
          cases read
      | some number =>
          rcases stoll_eq_some_iff.mp read with integer | misread
          · exact .inl integer
          · exact .inr ⟨fun _ integer => integer.not_misread misread,
              well.ttl verb key value token rest shape upper number misread⟩

theorem readsWhole (well : NoneMisread tokens) : ReadsWhole tokens := by
  constructor
  case indices =>
    intro key start stop parsed
    obtain ⟨verb, first, second, rest, shape, upper, read, read'⟩ := parse_eq_lrange.mp parsed
    exact ⟨verb, first, second, rest, shape, well.isInteger shape upper read read'⟩
  case rejected =>
    intro verb arguments shape upper other
    rw [shape]
    match arguments with
    | [] | [_] | [_, _] => simp only [parse, upper]; rfl
    | key :: first :: second :: rest =>
        rw [parse_lrange upper, Option.bind_eq_none_iff]
        intro start read
        rw [Option.map_eq_none_iff, Option.eq_none_iff_forall_ne_some]
        intro stop read'
        exact other key first second rest start stop rfl
          (well.isInteger shape upper read read')
  case ttl =>
    intro key value ttl parsed
    obtain ⟨verb, rest, shape, upper, rfl⟩ := parse_eq_set.mp parsed
    exact ⟨verb, rest, shape, well.ttlMeant shape upper⟩

end NoneMisread

/-- For all tokens, integers are read as a whole or not at all exactly if none is misread: no part
of an index is taken for it while the other one is read, and no part of a time to live unless it
says the default.
-/
theorem readsWhole_iff (tokens : List Bytes) : ReadsWhole tokens ↔ NoneMisread tokens :=
  ⟨ReadsWhole.noneMisread, NoneMisread.readsWhole⟩

/-- A time to live with another letter behind it. -/
theorem readsWhole_fails
    : ¬ ReadsWhole [ascii "SET", ascii "k", ascii "v", ascii "10x"] := by
  intro whole
  have parsed
      : parse [ascii "SET", ascii "k", ascii "v", ascii "10x"]
        = some (.set (ascii "k") (ascii "v") 10) := by decide +kernel
  obtain ⟨verb, rest, same, meant⟩ := whole.ttl _ _ _ parsed
  obtain ⟨-, rfl⟩ : ascii "SET" = verb ∧ [ascii "10x"] = rest := by simpa using same
  rcases meant with ⟨denotes, -⟩ | ⟨-, usual⟩
  · exact absurd (denotes.digits_of_mem_tail 120 (by decide)) (by decide)
  · exact absurd usual (by decide)

end CommandFactory

end InMemoryDB
