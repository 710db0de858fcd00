import InMemoryDB.Library.Decimal

/-! The serialization protocol of replies: simple strings, errors, integers, bulk strings and
arrays of them, and the reader that takes a stream of them apart again.
-/

namespace Resp

/-- A reply as a client gets it. -/
inductive Reply where
  | simple (text : List UInt8)
  | error (text : List UInt8)
  | integer (number : Int)
  | bulk (payload : List UInt8)
  | null
  | array (items : List (List UInt8))
  deriving DecidableEq

/-- The end of a line. -/
def crlf : List UInt8 := [13, 10]

-----------------------------------------------------------------------------------------
-- Writing
-----------------------------------------------------------------------------------------

def printInt (number : Int) : List UInt8 :=
  if number < 0 then 45 :: Decimal.print number.natAbs else Decimal.print number.natAbs

def encodeBulk (payload : List UInt8) : List UInt8 :=
  36 :: Decimal.print payload.length ++ crlf ++ payload ++ crlf

def encode : Reply → List UInt8
  | .simple text => 43 :: text ++ crlf
  | .error text => 45 :: text ++ crlf
  | .integer number => 58 :: printInt number ++ crlf
  | .bulk payload => encodeBulk payload
  | .null => [36, 45, 49] ++ crlf
  | .array items => 42 :: Decimal.print items.length ++ crlf ++ items.flatMap encodeBulk

-----------------------------------------------------------------------------------------
-- Reading
-----------------------------------------------------------------------------------------

/-- What stands in front of the first end of a line, and what stands behind it. -/
def splitLine : List UInt8 → Option (List UInt8 × List UInt8)
  | [] => none
  | [_] => none
  | first :: second :: rest =>
      if first = 13 ∧ second = 10 then some ([], rest)
      else (splitLine (second :: rest)).map fun cut => (first :: cut.1, cut.2)

def readNat (digits : List UInt8) : Option ℕ :=
  if digits ≠ [] ∧ digits.all Decimal.isDigit then some (Decimal.value digits) else none

def readInt : List UInt8 → Option Int
  | 45 :: digits => (readNat digits).map fun magnitude : ℕ => -(magnitude : Int)
  | digits => (readNat digits).map fun magnitude : ℕ => (magnitude : Int)

/-- A payload of known length with the end of a line behind it. -/
def takePayload (length : ℕ) (input : List UInt8) : Option (List UInt8 × List UInt8) :=
  if length ≤ input.length ∧ (input.drop length).take 2 = crlf then
    some (input.take length, input.drop (length + 2))
  else none

/-- What stands behind the `$` of a bulk string. -/
def readBulk (input : List UInt8) : Option (List UInt8 × List UInt8) := do
  let (line, rest) ← splitLine input
  let length ← readNat line
  takePayload length rest

/-- A number of bulk strings, one after the other. -/
def readBulks : ℕ → List UInt8 → Option (List (List UInt8) × List UInt8)
  | 0, input => some ([], input)
  | count + 1, 36 :: input => do
      let (payload, rest) ← readBulk input
      let (others, rest) ← readBulks count rest
      return (payload :: others, rest)
  | _ + 1, _ => none

/-- The first reply of a stream, and the rest of the stream. -/
def readReply : List UInt8 → Option (Reply × List UInt8)
  | 43 :: input => (splitLine input).map fun cut => (.simple cut.1, cut.2)
  | 45 :: input => (splitLine input).map fun cut => (.error cut.1, cut.2)
  | 58 :: input => do
      let (line, rest) ← splitLine input
      let number ← readInt line
      return (.integer number, rest)
  | 36 :: input =>
      if input.take 4 = [45, 49, 13, 10] then some (.null, input.drop 4)
      else (readBulk input).map fun cut => (.bulk cut.1, cut.2)
  | 42 :: input => do
      let (line, rest) ← splitLine input
      let count ← readNat line
      let (items, rest) ← readBulks count rest
      return (.array items, rest)
  | _ => none

/-- All replies of a stream, at most as many as the fuel allows. -/
def readReplies : ℕ → List UInt8 → Option (List Reply)
  | _, [] => some []
  | 0, _ :: _ => none
  | fuel + 1, input => do
      let (reply, rest) ← readReply input
      let others ← readReplies fuel rest
      return reply :: others

/-- The replies that a stream consists of. Each takes one byte at least. -/
def decode (input : List UInt8) : Option (List Reply) := readReplies input.length input

-----------------------------------------------------------------------------------------
-- What is written is read back
-----------------------------------------------------------------------------------------

/-- A line without a carriage return is cut at its end, by induction on the line. -/
theorem splitLine_append {line : List UInt8} (rest : List UInt8) (plain : (13 : UInt8) ∉ line)
    : splitLine (line ++ (crlf ++ rest)) = some (line, rest) := by
  induction line with
  | nil => simp [splitLine, crlf]
  | cons first others ih =>
      obtain ⟨different, plain⟩ := not_or.mp (List.mem_cons.not.mp plain)
      have later := ih plain
      cases others with
      | nil => simp [splitLine, crlf, Ne.symm different]
      | cons second others =>
          simp only [List.cons_append] at later ⊢
          simp [splitLine, Ne.symm different, later]

theorem plain_print (number : ℕ) : (13 : UInt8) ∉ Decimal.print number := by
  intro member
  exact absurd (Decimal.isDigit_of_mem_print member) (by decide)

theorem readNat_print (number : ℕ) : readNat (Decimal.print number) = some number := by
  have digits : (Decimal.print number).all Decimal.isDigit = true :=
    List.all_eq_true.mpr fun byte member => Decimal.isDigit_of_mem_print member
  simp [readNat, Decimal.print_ne_nil, digits, Decimal.value_print]

theorem plain_printInt (number : Int) : (13 : UInt8) ∉ printInt number := by
  unfold printInt
  split
  · simpa using plain_print number.natAbs
  · exact plain_print number.natAbs

/-- A numeral without a sign is read as it is. -/
theorem readInt_print (number : ℕ) : readInt (Decimal.print number) = some (number : Int) := by
  unfold readInt
  split
  · rename_i digits same
    have sign : (45 : UInt8) ∈ Decimal.print number := by simp [same]
    exact absurd (Decimal.isDigit_of_mem_print sign) (by decide)
  · rw [readNat_print, Option.map_some]

theorem readInt_printInt (number : Int) : readInt (printInt number) = some number := by
  unfold printInt
  split
  · rw [readInt, readNat_print, Option.map_some, Option.some.injEq]
    omega
  · rw [readInt_print, Option.some.injEq]
    omega

theorem takePayload_append (payload rest : List UInt8)
    : takePayload payload.length (payload ++ (crlf ++ rest)) = some (payload, rest) := by
  simp [takePayload, crlf, List.drop_append]

theorem readBulk_append (payload rest : List UInt8)
    : readBulk (Decimal.print payload.length ++ (crlf ++ (payload ++ (crlf ++ rest))))
      = some (payload, rest) := by
  simp [readBulk, splitLine_append _ (plain_print payload.length), readNat_print,
    takePayload_append]

/-- The items of an array are read one by one, by induction on them. -/
theorem readBulks_append (items : List (List UInt8)) (rest : List UInt8)
    : readBulks items.length (items.flatMap encodeBulk ++ rest) = some (items, rest) := by
  induction items with
  | nil => rfl
  | cons first others ih =>
      simp [readBulks, encodeBulk, readBulk_append, ih]

/-- The texts of simple strings and errors have no carriage return in them. -/
def Reply.Plain : Reply → Prop
  | .simple text | .error text => (13 : UInt8) ∉ text
  | .integer _ | .bulk _ | .null | .array _ => True

/-- A reply is read from the front of a stream, and what is behind it is left. -/
theorem readReply_append {reply : Reply} (plain : reply.Plain) (rest : List UInt8)
    : readReply (encode reply ++ rest) = some (reply, rest) := by
  cases reply with
  | simple text => simp [encode, readReply, splitLine_append rest plain]
  | error text => simp [encode, readReply, splitLine_append rest plain]
  | integer number =>
      simp [encode, readReply, splitLine_append rest (plain_printInt number), readInt_printInt]
  | null => simp [encode, readReply, crlf]
  | bulk payload =>
      have digits : (Decimal.print payload.length ++ (crlf ++ (payload ++ (crlf ++ rest)))).take 4
          ≠ [45, 49, 13, 10] := by
        intro same
        cases print : Decimal.print payload.length with
        | nil => exact Decimal.print_ne_nil _ print
        | cons first others =>
            rw [print, List.cons_append, List.take_succ_cons] at same
            obtain ⟨sign, -⟩ := List.cons.inj same
            have digit : first ∈ Decimal.print payload.length := by simp [print]
            exact absurd (Decimal.isDigit_of_mem_print (sign ▸ digit)) (by decide)
      simp [encode, encodeBulk, readReply, digits, readBulk_append]
  | array items =>
      simp [encode, readReply, splitLine_append _ (plain_print items.length), readNat_print,
        readBulks_append]

theorem encode_ne_nil (reply : Reply) : encode reply ≠ [] := by
  cases reply <;> simp [encode, encodeBulk]

/-- With fuel for every byte, all replies are read, by induction on them. -/
theorem readReplies_flatMap {replies : List Reply} (plain : ∀ reply ∈ replies, reply.Plain)
    {fuel : ℕ} (enough : (replies.flatMap encode).length ≤ fuel)
    : readReplies fuel (replies.flatMap encode) = some replies := by
  induction replies generalizing fuel with
  | nil => cases fuel <;> rfl
  | cons first others ih =>
      obtain ⟨here, later⟩ := List.forall_mem_cons.mp plain
      have some_byte := List.length_pos_of_ne_nil (encode_ne_nil first)
      rw [List.flatMap_cons, List.length_append] at enough
      obtain ⟨turns, rfl⟩ := Nat.exists_eq_add_of_lt (by omega : 0 < fuel)
      have read := readReply_append here (others.flatMap encode)
      rw [List.flatMap_cons]
      cases stream : encode first ++ others.flatMap encode with
      | nil => simp [encode_ne_nil] at stream
      | cons byte bytes =>
          rw [stream] at read
          rw [Nat.zero_add]
          simp [readReplies, read, ih later (by omega : (others.flatMap encode).length ≤ turns)]

/-- A stream of replies is decoded to these replies, with nothing left over. -/
theorem decode_flatMap {replies : List Reply} (plain : ∀ reply ∈ replies, reply.Plain)
    : decode (replies.flatMap encode) = some replies :=
  readReplies_flatMap plain le_rfl

/-- Different replies are written differently. -/
theorem encode_inj {reply other : Reply} (plain : reply.Plain) (plain' : other.Plain)
    (same : encode reply = encode other)
    : reply = other := by
  have read := readReply_append plain []
  rw [same, readReply_append plain' []] at read
  exact (Prod.mk.inj (Option.some.inj read)).1.symm

end Resp
