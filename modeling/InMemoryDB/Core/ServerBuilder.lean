import InMemoryDB.Core.CommandFactory

/-! The start of a server: the log that an earlier one left is replayed into a fresh store. -/

namespace InMemoryDB

namespace ServerBuilder

/-- The lines that `std::getline` yields until the end of the file: those that end in a
newline, and the rest behind the last one unless it is empty.
-/
def getlines (file : Bytes) : List Bytes :=
  let cut := Delimited.pieces newline file
  if cut.2 = [] then cut.1 else cut.1 ++ [cut.2]

/-- The loop body of the replay. -/
def replayLine (refusals : Refusals) (now : Int) (line : Bytes) (router : ShardRouter)
    (aof : AofLogger)
    : ShardRouter × AofLogger :=
  if line = [] then (router, aof)
  else
    match CommandFactory.parse (tokenize line) with
    | none => (router, aof)
    | some command =>
        let done := command.execute refusals now router aof
        (done.router, done.aof)

/-- The loop of the replay; each turn has its own clock reading and its own refusals. -/
def replayLines : (clock : ℕ → Int) → (refusals : ℕ → Refusals) → List Bytes → ShardRouter
    → AofLogger → ShardRouter × AofLogger
  | _, _, [], router, aof => (router, aof)
  | clock, refusals, line :: rest, router, aof =>
      let (router, aof) := replayLine (refusals 0) (clock 0) line router aof
      replayLines (fun turn => clock (turn + 1)) (fun turn => refusals (turn + 1)) rest router aof

/-- The replies that the loop of the replay drops, one for each line that makes a command. -/
def replayReplies : (clock : ℕ → Int) → (refusals : ℕ → Refusals) → List Bytes → ShardRouter
    → AofLogger → List (Option Bytes)
  | _, _, [], _, _ => []
  | clock, refusals, line :: rest, router, aof =>
      let reply := (CommandFactory.parse (tokenize line)).map fun command =>
        (command.execute (refusals 0) (clock 0) router aof).reply
      let (router, aof) := replayLine (refusals 0) (clock 0) line router aof
      reply
        :: replayReplies (fun turn => clock (turn + 1)) (fun turn => refusals (turn + 1)) rest
            router aof

/-- The replay of a log file before its logger is started. -/
def replay (clock : ℕ → Int) (refusals : ℕ → Refusals) (router : ShardRouter)
    (aof : AofLogger)
    : ShardRouter × AofLogger :=
  let aof := aof.setReplaying true
  let (router, aof) := replayLines clock refusals (getlines aof.file) router aof
  (router, aof.setReplaying false)

/-- `build_and_run` until its logger runs, on the file that it finds; a missing file is
replayed as an empty one would be.
-/
def boot (clock : ℕ → Int) (refusals : ℕ → Refusals) (totalMemory exponent : ℕ)
    (file : Bytes)
    : ShardRouter × AofLogger :=
  let (router, aof) :=
    replay clock refusals (.construct totalMemory exponent) { file := file }
  (router, aof.start)

-----------------------------------------------------------------------------------------
-- Lines of a log
-----------------------------------------------------------------------------------------

/-- Lines written with their newlines are read back, and what stands behind them is one
more line unless it is empty.
-/
theorem getlines_encodeLines_append {lines : List Bytes} {rest : Bytes}
    (whole : ∀ line ∈ lines, newline ∉ line) (cut : newline ∉ rest)
    : getlines (encodeLines lines ++ rest) = lines ++ if rest = [] then [] else [rest] := by
  rw [getlines, encodeLines, Delimited.pieces_flatMap_append rest whole,
    Delimited.pieces_of_notMem cut]
  by_cases empty : rest = []
  · simp [empty]
  · simp [empty]

theorem getlines_encodeLines {lines : List Bytes} (whole : ∀ line ∈ lines, newline ∉ line)
    : getlines (encodeLines lines) = lines := by
  have nothing : newline ∉ ([] : Bytes) := List.not_mem_nil
  simpa using getlines_encodeLines_append whole nothing

/-- The text of a well-formed command fits on one line, as its words have no blanks. -/
theorem newline_notMem_serialize {command : ICommand} (wellFormed : command.WellFormed)
    : newline ∉ command.serialize := by
  rw [command.serialize_eq]
  intro member
  rcases Delimited.mem_intercalate member with blank | ⟨token, among, inside⟩
  · exact absurd blank (by decide)
  · exact absurd ((wellFormed.isWord token among).2 newline inside) (by decide)

/-- The lines of a log are the texts of its records. -/
theorem getlines_serialized {records : List ICommand}
    (wellFormed : ∀ record ∈ records, record.WellFormed)
    : getlines (encodeLines (records.map ICommand.serialize))
      = records.map ICommand.serialize := by
  apply getlines_encodeLines
  simpa using fun record member => newline_notMem_serialize (wellFormed record member)

theorem serialize_ne_nil (command : ICommand) : command.serialize ≠ [] := by
  cases command <;> simp [ICommand.serialize, ascii]

/-- The command that the replay makes of a line, which the loop body executes. -/
def commandOfLine (line : Bytes) : Option ICommand :=
  if line = [] then none else CommandFactory.parse (tokenize line)

theorem replayLine_eq (refusals : Refusals) (now : Int) (line : Bytes) (router : ShardRouter)
    (aof : AofLogger)
    : replayLine refusals now line router aof
      = match commandOfLine line with
        | none => (router, aof)
        | some command =>
            ((command.execute refusals now router aof).router,
              (command.execute refusals now router aof).aof) := by
  unfold replayLine commandOfLine
  split
  · rfl
  · cases CommandFactory.parse (tokenize line) <;> rfl

theorem commandOfLine_serialize {command : ICommand} (wellFormed : command.WellFormed)
    : commandOfLine command.serialize = some command := by
  simp only [commandOfLine, serialize_ne_nil, if_false,
    CommandFactory.parse_serialize wellFormed]

/-- Replaying the text of a well-formed command executes that command. -/
theorem replayLine_serialize {command : ICommand} (wellFormed : command.WellFormed)
    (refusals : Refusals) (now : Int) (router : ShardRouter) (aof : AofLogger)
    : replayLine refusals now command.serialize router aof
      = ((command.execute refusals now router aof).router,
        (command.execute refusals now router aof).aof) := by
  rw [replayLine_eq, commandOfLine_serialize wellFormed]

/-- What the factory has made of some lines is written to a log, one text and one newline each.
The replay of the log makes the same commands, with nothing in front, between or behind.
-/
theorem log_round_trip {commands : List ICommand}
    (parsed
      : ∀ command ∈ commands,
          ∃ line, CommandFactory.parse (tokenize line) = some command)
    : (getlines (encodeLines (commands.map ICommand.serialize))).map commandOfLine
      = commands.map some := by
  have wellFormed : ∀ command ∈ commands, command.WellFormed := by
    intro command member
    obtain ⟨line, made⟩ := parsed command member
    exact CommandFactory.wellFormed_of_parse (fun token => Delimited.isWord_of_mem_words) made
  rw [getlines_serialized wellFormed, List.map_map]
  apply List.map_congr_left
  intro command member
  exact commandOfLine_serialize (wellFormed command member)

/-- Numbers at both ends of what they may be, and a time to live that the line leaves out. -/
theorem log_round_trip_ends
    : (getlines
          (encodeLines
            ([.set (ascii "k") (ascii "v") (-2 ^ 63), .set (ascii "k") (ascii "w") defaultTtl,
                .lrange (ascii "k") (-2 ^ 63) (2 ^ 63 - 1)].map
              ICommand.serialize))).map commandOfLine
      = [some (.set (ascii "k") (ascii "v") (-2 ^ 63)),
        some (.set (ascii "k") (ascii "w") defaultTtl),
        some (.lrange (ascii "k") (-2 ^ 63) (2 ^ 63 - 1))] := by
  apply log_round_trip
  rintro command member
  simp only [List.mem_cons, List.not_mem_nil, or_false] at member
  rcases member with rfl | rfl | rfl
  · exact ⟨ascii "SET k v -9223372036854775808", by decide +kernel⟩
  · exact ⟨ascii "set k w", by decide +kernel⟩
  · exact ⟨ascii "LRANGE k -9223372036854775808 9223372036854775807", by decide +kernel⟩

-----------------------------------------------------------------------------------------
-- The loop of the replay
-----------------------------------------------------------------------------------------

/-- Replaying one text after another, by induction on the first. -/
theorem replayLines_append (clock : ℕ → Int) (refusals : ℕ → Refusals)
    (front back : List Bytes) (router : ShardRouter) (aof : AofLogger)
    : replayLines clock refusals (front ++ back) router aof
      = replayLines (fun turn => clock (front.length + turn))
          (fun turn => refusals (front.length + turn)) back
          (replayLines clock refusals front router aof).1
          (replayLines clock refusals front router aof).2 := by
  induction front generalizing clock refusals router aof with
  | nil => simp [replayLines]
  | cons line rest ih =>
      simp only [List.cons_append, replayLines, ih, List.length_cons, Nat.add_right_comm]

/-- The replies of a replayed log are those of its records, each executed where the replay of
the records before it has come to; by induction on the log.
-/
theorem mem_replayReplies {records : List ICommand}
    (wellFormed : ∀ record ∈ records, record.WellFormed) (clock : ℕ → Int)
    (refusals : ℕ → Refusals) (router : ShardRouter) (aof : AofLogger) {reply : Option Bytes}
    : reply ∈ replayReplies clock refusals (records.map ICommand.serialize) router aof
      ↔ ∃ front record back,
          records = front ++ record :: back
          ∧ reply
            = some
                (record.execute (refusals front.length) (clock front.length)
                  (replayLines clock refusals (front.map ICommand.serialize) router aof).1
                  (replayLines clock refusals (front.map ICommand.serialize) router aof).2).reply
      := by
  induction records generalizing clock refusals router aof with
  | nil => simp [replayReplies]
  | cons first rest ih =>
      obtain ⟨mine, others⟩ := List.forall_mem_cons.mp wellFormed
      simp only [List.map_cons, replayReplies, CommandFactory.parse_serialize mine,
        Option.map_some, List.mem_cons, ih others]
      constructor
      · rintro (rfl | ⟨front, record, back, rfl, rfl⟩)
        · exact ⟨[], first, rest, rfl, rfl⟩
        · exact ⟨first :: front, record, back, rfl, rfl⟩
      · rintro ⟨front, record, back, whole, rfl⟩
        cases front with
        | nil =>
            obtain ⟨rfl, rfl⟩ := List.cons.inj whole
            exact .inl rfl
        | cons head front =>
            obtain ⟨rfl, rfl⟩ := List.cons.inj whole
            exact .inr ⟨front, record, back, rfl, rfl⟩

end ServerBuilder

end InMemoryDB
