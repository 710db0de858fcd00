import InMemoryDB.Core.Effect
import InMemoryDB.Library.Delimited
import Mathlib.Data.List.TakeWhile

/-! Lines of text to commands, and back: a command the factory can make is the one its
serialized text parses to.
-/

namespace InMemoryDB

-----------------------------------------------------------------------------------------
-- Tokens and numbers
-----------------------------------------------------------------------------------------

/-- `std::isspace` in the classic locale. -/
def isSpace (byte : UInt8) : Bool := byte = 32 || 9 ≤ byte && byte ≤ 13

/-- Extraction of words from a string stream. -/
def tokenize (line : Bytes) : List Bytes := Delimited.words isSpace line

/-- `std::toupper` in the classic locale. -/
def toUpper (byte : UInt8) : UInt8 := if 97 ≤ byte ∧ byte ≤ 122 then byte - 32 else byte

/-- The numbers a signed 64-bit integer can hold. -/
def InInt64 (number : Int) : Prop := -2 ^ 63 ≤ number ∧ number < 2 ^ 63

instance (number : Int) : Decidable (InInt64 number) := inferInstanceAs (Decidable (_ ∧ _))

/-- The sign in front of a numeral, if there is one, and the numeral. -/
def cutSign : Bytes → Bool × Bytes
  | 45 :: rest => (true, rest)
  | 43 :: rest => (false, rest)
  | rest => (false, rest)

/-- `std::stoll` to base ten; the two exceptions it throws are caught alike. -/
def stoll (text : Bytes) : Option Int :=
  let cut := cutSign (text.dropWhile isSpace)
  let digits := cut.2.takeWhile Decimal.isDigit
  let magnitude : Int := Decimal.value digits
  let number := if cut.1 then -magnitude else magnitude
  if digits = [] then none else if InInt64 number then some number else none

-----------------------------------------------------------------------------------------
-- The factory
-----------------------------------------------------------------------------------------

namespace CommandFactory

/-- The time to live that `SET` takes from the tokens behind its value. -/
def setTtl : List Bytes → Int
  | [] => defaultTtl
  | token :: _ => (stoll token).getD defaultTtl

/-- A verb with too few arguments matches none of the later verbs. -/
def parse : List Bytes → Option ICommand
  | [] => none
  | verb :: arguments =>
      let cmd := verb.map toUpper
      if cmd = ascii "SET" then
        match arguments with
        | key :: value :: rest => some (.set key value (setTtl rest))
        | _ => none
      else if cmd = ascii "GET" then
        match arguments with
        | key :: _ => some (.get key)
        | _ => none
      else if cmd = ascii "DEL" then
        match arguments with
        | key :: _ => some (.del key)
        | _ => none
      else if cmd = ascii "EXISTS" then
        match arguments with
        | key :: _ => some (.exists key)
        | _ => none
      else if cmd = ascii "PING" then some .ping
      else if cmd = ascii "LPUSH" then
        match arguments with
        | key :: value :: _ => some (.lpush key value defaultTtl)
        | _ => none
      else if cmd = ascii "LRANGE" then
        match arguments with
        | key :: start :: stop :: _ =>
            match stoll start, stoll stop with
            | some start, some stop => some (.lrange key start stop)
            | _, _ => none
        | _ => none
      else if cmd = ascii "HSET" then
        match arguments with
        | key :: field :: value :: _ => some (.hset key field value defaultTtl)
        | _ => none
      else if cmd = ascii "HGET" then
        match arguments with
        | key :: field :: _ => some (.hget key field)
        | _ => none
      else none

end CommandFactory

-----------------------------------------------------------------------------------------
-- Numerals round trip
-----------------------------------------------------------------------------------------

theorem isDigit_ne_sign {byte : UInt8} (digit : Decimal.isDigit byte = true)
    : byte ≠ 45 ∧ byte ≠ 43 ∧ isSpace byte = false := by
  simp only [Decimal.isDigit, isSpace, Bool.and_eq_true, decide_eq_true_eq,
    UInt8.le_iff_toNat_le, Bool.or_eq_false_iff, Bool.and_eq_false_iff, decide_eq_false_iff_not,
    ne_eq, UInt8.toNat_inj.symm] at digit ⊢
  have spelled : (48 : UInt8).toNat = 48 ∧ (57 : UInt8).toNat = 57 ∧ (45 : UInt8).toNat = 45
      ∧ (43 : UInt8).toNat = 43 ∧ (32 : UInt8).toNat = 32 ∧ (9 : UInt8).toNat = 9
      ∧ (13 : UInt8).toNat = 13 := by decide
  omega

/-- A numeral without a sign is taken as it is. -/
theorem cutSign_of_digits {digits : Bytes}
    (numeral : ∀ byte ∈ digits, Decimal.isDigit byte = true)
    : cutSign digits = (false, digits) := by
  cases digits with
  | nil => rfl
  | cons head tail =>
      obtain ⟨notMinus, notPlus, -⟩ := isDigit_ne_sign (numeral head (by simp))
      unfold cutSign
      split
      · rename_i same
        exact absurd (List.cons.inj same).1 notMinus
      · rename_i same
        exact absurd (List.cons.inj same).1 notPlus
      · rfl

theorem dropWhile_of_head {text : Bytes} (solid : ∀ byte ∈ text.head?, isSpace byte = false)
    : text.dropWhile isSpace = text := by
  cases text with
  | nil => rfl
  | cons head tail => simp [solid head rfl]

/-- A printed number starts with its sign or a digit. -/
theorem toDecimal_isWord (number : Int) : Delimited.IsWord isSpace (toDecimal number) := by
  have digits : ∀ byte ∈ Decimal.print number.natAbs, isSpace byte = false :=
    fun byte member => (isDigit_ne_sign (Decimal.isDigit_of_mem_print member)).2.2
  unfold toDecimal
  split
  · refine ⟨by simp [ascii], ?_⟩
    intro byte member
    rcases List.mem_append.mp member with sign | digit
    · obtain rfl := List.mem_singleton.mp sign
      rfl
    · exact digits byte digit
  · exact ⟨Decimal.print_ne_nil _, digits⟩

/-- A printed number is its sign, if it is negative, and its digits. -/
theorem cutSign_toDecimal (number : Int)
    : cutSign (toDecimal number) = (decide (number < 0), Decimal.print number.natAbs) := by
  unfold toDecimal
  split
  · rename_i negative
    simp [cutSign, ascii, negative]
  · rename_i positive
    rw [cutSign_of_digits fun byte member => Decimal.isDigit_of_mem_print member]
    simp [positive]

/-- `stoll` reads back what `to_string` wrote. -/
theorem stoll_toDecimal {number : Int} (bounded : InInt64 number)
    : stoll (toDecimal number) = some number := by
  have solid : (toDecimal number).dropWhile isSpace = toDecimal number :=
    dropWhile_of_head fun byte first =>
      (toDecimal_isWord number).2 byte (List.mem_of_mem_head? first)
  have taken : (Decimal.print number.natAbs).takeWhile Decimal.isDigit
      = Decimal.print number.natAbs :=
    List.takeWhile_eq_self_iff.mpr fun byte member => Decimal.isDigit_of_mem_print member
  have signed : (if number < 0 then -(number.natAbs : Int) else number.natAbs) = number := by
    split <;> omega
  simp only [stoll, solid, cutSign_toDecimal, taken, Decimal.print_ne_nil, Decimal.value_print,
    decide_eq_true_eq, signed, bounded, if_false, if_true]

/-- What `stoll` reads fits. -/
theorem inInt64_of_stoll {text : Bytes} {number : Int} (read : stoll text = some number)
    : InInt64 number := by
  simp only [stoll, Option.ite_none_left_eq_some, Option.ite_none_right_eq_some,
    Option.some.injEq] at read
  obtain ⟨-, bounded, rfl⟩ := read
  exact bounded

-----------------------------------------------------------------------------------------
-- Commands round trip
-----------------------------------------------------------------------------------------

namespace ICommand

/-- The tokens of a command's serialized text. -/
def tokens : ICommand → List Bytes
  | .set key value ttl => [ascii "SET", key, value, toDecimal ttl]
  | .get key => [ascii "GET", key]
  | .del key => [ascii "DEL", key]
  | .exists key => [ascii "EXISTS", key]
  | .ping => [ascii "PING"]
  | .lpush key value _ => [ascii "LPUSH", key, value]
  | .lrange key start stop => [ascii "LRANGE", key, toDecimal start, toDecimal stop]
  | .hset key field value _ => [ascii "HSET", key, field, value]
  | .hget key field => [ascii "HGET", key, field]

/-- The text of a command is its tokens with one blank between them. -/
theorem serialize_eq (command : ICommand)
    : command.serialize = [32].intercalate command.tokens := by
  have blank : ascii " " = [32] := rfl
  cases command <;> simp [serialize, tokens, List.intercalate, List.intersperse, blank] <;> rfl

/-- A command that a line of text can ask for: words for its texts, numbers that fit, and
the default time to live where the text has none.
-/
def WellFormed : ICommand → Prop
  | .set key value ttl =>
      Delimited.IsWord isSpace key ∧ Delimited.IsWord isSpace value ∧ InInt64 ttl
  | .get key | .del key | .exists key => Delimited.IsWord isSpace key
  | .ping => True
  | .lpush key value ttl =>
      Delimited.IsWord isSpace key ∧ Delimited.IsWord isSpace value ∧ ttl = defaultTtl
  | .lrange key start stop => Delimited.IsWord isSpace key ∧ InInt64 start ∧ InInt64 stop
  | .hset key field value ttl =>
      Delimited.IsWord isSpace key ∧ Delimited.IsWord isSpace field
      ∧ Delimited.IsWord isSpace value ∧ ttl = defaultTtl
  | .hget key field => Delimited.IsWord isSpace key ∧ Delimited.IsWord isSpace field

instance : DecidablePred WellFormed
  | .set .. | .lpush .. | .lrange .. => inferInstanceAs (Decidable (_ ∧ _ ∧ _))
  | .hset .. => inferInstanceAs (Decidable (_ ∧ _ ∧ _ ∧ _))
  | .get key | .del key | .exists key =>
      inferInstanceAs (Decidable (Delimited.IsWord isSpace key))
  | .ping => inferInstanceAs (Decidable True)
  | .hget .. => inferInstanceAs (Decidable (_ ∧ _))

/-- The key of a well-formed command is a word. -/
theorem WellFormed.key {command : ICommand} (wellFormed : command.WellFormed) {key : Bytes}
    (own : command.key? = some key)
    : Delimited.IsWord isSpace key := by
  cases command with
  | ping => cases own
  | get | del | «exists» =>
      obtain rfl := Option.some.inj own
      exact wellFormed
  | set | lpush | lrange | hset | hget =>
      obtain rfl := Option.some.inj own
      exact wellFormed.1

theorem WellFormed.ttl_of_container {command : ICommand} (wellFormed : command.WellFormed)
    {kind : ValueType} (adds : command.container = some kind)
    : command.ttl = defaultTtl := by
  cases command with
  | lpush => exact wellFormed.2.2
  | hset => exact wellFormed.2.2.2
  | set | get | del | «exists» | ping | lrange | hget => cases adds

/-- Every token of a well-formed command is a word. -/
theorem WellFormed.isWord {command : ICommand} (wellFormed : command.WellFormed)
    : ∀ token ∈ command.tokens, Delimited.IsWord isSpace token := by
  have verbs
      : ∀ verb ∈ ["SET", "GET", "DEL", "EXISTS", "PING", "LPUSH", "LRANGE", "HSET", "HGET"],
          Delimited.IsWord isSpace (ascii verb) := by
    unfold Delimited.IsWord
    decide +kernel
  cases command <;> simp_all [WellFormed, tokens, toDecimal_isWord]

end ICommand

/-- The text of a well-formed command is cut into the command's own tokens. -/
theorem tokenize_serialize {command : ICommand} (wellFormed : command.WellFormed)
    : tokenize command.serialize = command.tokens := by
  rw [tokenize, command.serialize_eq, Delimited.words_intercalate (by decide) wellFormed.isWord]

namespace CommandFactory

/-- Parsing the tokens of a well-formed command makes that command again. -/
theorem parse_tokens {command : ICommand} (wellFormed : command.WellFormed)
    : parse command.tokens = some command := by
  cases command with
  | set key value ttl =>
      have parsed : parse (ICommand.set key value ttl).tokens
          = some (.set key value ((stoll (toDecimal ttl)).getD defaultTtl)) := rfl
      rw [parsed, stoll_toDecimal wellFormed.2.2, Option.getD_some]
  | lrange key start stop =>
      have parsed : parse (ICommand.lrange key start stop).tokens
          = match stoll (toDecimal start), stoll (toDecimal stop) with
            | some start, some stop => some (.lrange key start stop)
            | _, _ => none := rfl
      rw [parsed, stoll_toDecimal wellFormed.2.1, stoll_toDecimal wellFormed.2.2]
  | lpush key value ttl =>
      obtain rfl := wellFormed.2.2
      rfl
  | hset key field value ttl =>
      obtain rfl := wellFormed.2.2.2
      rfl
  | get _ | del _ | «exists» _ | ping | hget _ _ => rfl

/-- The text of a well-formed command parses to the command itself. -/
theorem parse_serialize {command : ICommand} (wellFormed : command.WellFormed)
    : parse (tokenize command.serialize) = some command := by
  rw [tokenize_serialize wellFormed, parse_tokens wellFormed]

theorem inInt64_setTtl (rest : List Bytes) : InInt64 (setTtl rest) := by
  cases rest with
  | nil => decide
  | cons token others =>
      cases read : stoll token with
      | none =>
          rw [setTtl, read]
          decide
      | some number =>
          rw [setTtl, read]
          exact inInt64_of_stoll read

/-- All that a request can be parsed to. -/
inductive Parses : List Bytes → ICommand → Prop
  | set {verb key value rest} (named : verb.map toUpper = ascii "SET")
    : Parses (verb :: key :: value :: rest) (.set key value (setTtl rest))
  | get {verb key rest} (named : verb.map toUpper = ascii "GET")
    : Parses (verb :: key :: rest) (.get key)
  | del {verb key rest} (named : verb.map toUpper = ascii "DEL")
    : Parses (verb :: key :: rest) (.del key)
  | «exists» {verb key rest} (named : verb.map toUpper = ascii "EXISTS")
    : Parses (verb :: key :: rest) (.exists key)
  | ping {verb rest} (named : verb.map toUpper = ascii "PING") : Parses (verb :: rest) .ping
  | lpush {verb key value rest} (named : verb.map toUpper = ascii "LPUSH")
    : Parses (verb :: key :: value :: rest) (.lpush key value defaultTtl)
  | lrange {verb key first second rest start stop} (named : verb.map toUpper = ascii "LRANGE")
    (read : stoll first = some start) (read' : stoll second = some stop)
    : Parses (verb :: key :: first :: second :: rest) (.lrange key start stop)
  | hset {verb key field value rest} (named : verb.map toUpper = ascii "HSET")
    : Parses (verb :: key :: field :: value :: rest) (.hset key field value defaultTtl)
  | hget {verb key field rest} (named : verb.map toUpper = ascii "HGET")
    : Parses (verb :: key :: field :: rest) (.hget key field)

/-- By the branches of the factory, one after another. -/
theorem parses_of_parse {tokens : List Bytes} {command : ICommand}
    (parsed : parse tokens = some command)
    : Parses tokens command := by
  cases tokens with
  | nil => cases parsed
  | cons verb arguments =>
      unfold parse at parsed
      dsimp only at parsed
      by_cases named : verb.map toUpper = ascii "SET"
      · rw [if_pos named] at parsed
        rcases arguments with _ | ⟨key, _ | ⟨value, rest⟩⟩
        · cases parsed
        · cases parsed
        · cases parsed
          exact .set named
      rw [if_neg named] at parsed
      by_cases named : verb.map toUpper = ascii "GET"
      · rw [if_pos named] at parsed
        rcases arguments with _ | ⟨key, rest⟩
        · cases parsed
        · cases parsed
          exact .get named
      rw [if_neg named] at parsed
      by_cases named : verb.map toUpper = ascii "DEL"
      · rw [if_pos named] at parsed
        rcases arguments with _ | ⟨key, rest⟩
        · cases parsed
        · cases parsed
          exact .del named
      rw [if_neg named] at parsed
      by_cases named : verb.map toUpper = ascii "EXISTS"
      · rw [if_pos named] at parsed
        rcases arguments with _ | ⟨key, rest⟩
        · cases parsed
        · cases parsed
          exact .exists named
      rw [if_neg named] at parsed
      by_cases named : verb.map toUpper = ascii "PING"
      · rw [if_pos named] at parsed
        cases parsed
        exact .ping named
      rw [if_neg named] at parsed
      by_cases named : verb.map toUpper = ascii "LPUSH"
      · rw [if_pos named] at parsed
        rcases arguments with _ | ⟨key, _ | ⟨value, rest⟩⟩
        · cases parsed
        · cases parsed
        · cases parsed
          exact .lpush named
      rw [if_neg named] at parsed
      by_cases named : verb.map toUpper = ascii "LRANGE"
      · rw [if_pos named] at parsed
        rcases arguments with _ | ⟨key, _ | ⟨first, _ | ⟨second, rest⟩⟩⟩
        · cases parsed
        · cases parsed
        · cases parsed
        · dsimp only at parsed
          cases read : stoll first with
          | none =>
              rw [read] at parsed
              cases parsed
          | some start =>
              cases read' : stoll second with
              | none =>
                  rw [read, read'] at parsed
                  cases parsed
              | some stop =>
                  rw [read, read'] at parsed
                  cases parsed
                  exact .lrange named read read'
      rw [if_neg named] at parsed
      by_cases named : verb.map toUpper = ascii "HSET"
      · rw [if_pos named] at parsed
        rcases arguments with _ | ⟨key, _ | ⟨field, _ | ⟨value, rest⟩⟩⟩
        · cases parsed
        · cases parsed
        · cases parsed
        · cases parsed
          exact .hset named
      rw [if_neg named] at parsed
      by_cases named : verb.map toUpper = ascii "HGET"
      · rw [if_pos named] at parsed
        rcases arguments with _ | ⟨key, _ | ⟨field, rest⟩⟩
        · cases parsed
        · cases parsed
        · cases parsed
          exact .hget named
      rw [if_neg named] at parsed
      cases parsed

/-- The factory only makes commands that a line of text can ask for. -/
theorem wellFormed_of_parse {tokens : List Bytes} {command : ICommand}
    (solid : ∀ token ∈ tokens, Delimited.IsWord isSpace token)
    (parsed : parse tokens = some command)
    : command.WellFormed := by
  cases parses_of_parse parsed with
  | ping => trivial
  | get | del | «exists» =>
      exact solid _ (List.mem_cons_of_mem _ List.mem_cons_self)
  | set =>
      obtain ⟨-, key, value, -⟩ := by simpa only [List.forall_mem_cons] using solid
      exact ⟨key, value, inInt64_setTtl _⟩
  | lpush =>
      obtain ⟨-, key, value, -⟩ := by simpa only [List.forall_mem_cons] using solid
      exact ⟨key, value, rfl⟩
  | lrange _ read read' =>
      obtain ⟨-, key, -⟩ := by simpa only [List.forall_mem_cons] using solid
      exact ⟨key, inInt64_of_stoll read, inInt64_of_stoll read'⟩
  | hset =>
      obtain ⟨-, key, field, value, -⟩ := by simpa only [List.forall_mem_cons] using solid
      exact ⟨key, field, value, rfl⟩
  | hget =>
      obtain ⟨-, key, field, -⟩ := by simpa only [List.forall_mem_cons] using solid
      exact ⟨key, field⟩

end CommandFactory

end InMemoryDB
