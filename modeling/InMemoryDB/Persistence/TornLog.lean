import InMemoryDB.Persistence.Restoration

/-! A log that a crash has cut short. Its whole records are replayed as they were; the rest of
the next one is replayed too, as whatever command it still spells.
-/

namespace InMemoryDB

namespace ICommand

/-- The verb of a record. -/
def verb : ICommand → Bytes
  | .set .. => ascii "SET"
  | .del .. => ascii "DEL"
  | .lpush .. => ascii "LPUSH"
  | .hset .. => ascii "HSET"
  | _ => []

/-- The tokens between the verb of a record and the last argument that it needs. -/
def middle : ICommand → List Bytes
  | .set key _ _ | .lpush key _ _ => [key]
  | .hset key field _ _ => [key, field]
  | _ => []

/-- The text of a record up to the first byte of the last argument that it needs. -/
def leadingText (command : ICommand) : Bytes :=
  (command.verb :: command.middle).flatMap (· ++ [32])

/-- The text of a record from that argument on. -/
def remainingText : ICommand → Bytes
  | .set _ value ttl => value ++ ascii " " ++ toDecimal ttl
  | .del key => key
  | .lpush _ value _ | .hset _ _ value _ => value
  | _ => []

theorem serialize_eq_leadingText {command : ICommand} (writes : command.isWrite = true)
    : command.serialize = command.leadingText ++ command.remainingText := by
  have blank : ascii " " = [32] := rfl
  cases command with
  | set | del | lpush | hset =>
      simp only [serialize, leadingText, verb, middle, remainingText, blank, List.flatMap_cons,
        List.flatMap_nil, List.append_assoc]
      rfl
  | get | «exists» | ping | lrange | hget => cases writes

/-- The tokens up to the last argument are words. -/
theorem WellFormed.leading {command : ICommand} (wellFormed : command.WellFormed)
    (writes : command.isWrite = true)
    : ∀ token ∈ command.verb :: command.middle, Delimited.IsWord isSpace token := by
  have verbs
      : ∀ verb ∈ ["SET", "DEL", "LPUSH", "HSET"], Delimited.IsWord isSpace (ascii verb) := by
    decide
  cases command with
  | set | del | lpush | hset => simp_all [WellFormed, verb, middle]
  | get | «exists» | ping | lrange | hget => cases writes

/-- The remaining text begins with a byte of the argument. -/
theorem WellFormed.remainingText {command : ICommand} (wellFormed : command.WellFormed)
    (writes : command.isWrite = true)
    : ∃ first rest, command.remainingText = first :: rest ∧ isSpace first = false := by
  have begin {argument : Bytes} (word : Delimited.IsWord isSpace argument) (behind : Bytes)
      : ∃ first rest, argument ++ behind = first :: rest ∧ isSpace first = false := by
    obtain ⟨solid, visible⟩ := word
    cases argument with
    | nil => exact absurd rfl solid
    | cons first rest => exact ⟨first, rest ++ behind, rfl, visible first (by simp)⟩
  cases command with
  | set key value ttl =>
      simpa [ICommand.remainingText] using begin wellFormed.2.1 (ascii " " ++ toDecimal ttl)
  | del => simpa [ICommand.remainingText] using begin wellFormed []
  | lpush => simpa [ICommand.remainingText] using begin wellFormed.2.1 []
  | hset => simpa [ICommand.remainingText] using begin wellFormed.2.2.1 []
  | get | «exists» | ping | lrange | hget => cases writes

/-- Too few tokens make no command, even if a single one is only the beginning of the verb. -/
theorem parse_eq_none {command : ICommand} (writes : command.isWrite = true)
    {tokens : List Bytes} (few : tokens.length ≤ command.middle.length + 1)
    (spelled
      : ∀ first rest,
          tokens = first :: rest → first <+: command.verb ∧ (rest ≠ [] → first = command.verb))
    : CommandFactory.parse tokens = none := by
  have beginnings
      : ∀ verb ∈ ["SET", "DEL", "LPUSH", "HSET"],
          ∀ first ∈ (ascii verb).inits, CommandFactory.parse [first] = none := by
    decide
  rcases tokens with _ | ⟨first, _ | ⟨second, rest⟩⟩
  · rfl
  · have begun := (List.mem_inits ..).mpr (spelled first [] rfl).1
    cases command with
    | set | del | lpush | hset => exact beginnings _ (by simp) first begun
    | get | «exists» | ping | lrange | hget => cases writes
  · obtain rfl := (spelled first _ rfl).2 (by simp)
    cases command with
    | set | lpush =>
        obtain rfl : rest = [] := by simpa [middle] using few
        rfl
    | del => simp [middle] at few
    | hset =>
        rcases rest with _ | ⟨third, rest⟩
        · rfl
        · obtain rfl : rest = [] := by
            simp only [middle, List.length_cons, List.length_nil] at few
            exact List.length_eq_zero_iff.mp (by omega)
          rfl
    | get | «exists» | ping | lrange | hget => cases writes

/-- Enough tokens make a command. -/
theorem isSome_parse {command : ICommand} (writes : command.isWrite = true)
    {tokens : List Bytes} (enough : tokens ≠ [])
    : (CommandFactory.parse (command.verb :: command.middle ++ tokens)).isSome = true := by
  cases tokens with
  | nil => exact absurd rfl enough
  | cons first rest =>
      cases command with
      | set | del | lpush | hset => rfl
      | get | «exists» | ping | lrange | hget => cases writes

/-- The beginning of a record makes a command exactly if it reaches into the last argument
that the record needs.
-/
theorem parse_fragment_eq_none {command : ICommand} (wellFormed : command.WellFormed)
    (writes : command.isWrite = true) {fragment : Bytes}
    (beginning : fragment <+: command.serialize)
    : CommandFactory.parse (tokenize fragment) = none
      ↔ fragment.length ≤ command.leadingText.length := by
  have solid := wellFormed.leading writes
  obtain ⟨first, rest, argument, visible⟩ := wellFormed.remainingText writes
  rw [serialize_eq_leadingText writes] at beginning
  rcases Nat.lt_or_ge command.leadingText.length fragment.length with long | short
  · obtain ⟨reached, rfl⟩ := List.prefix_of_prefix_length_le (List.prefix_append ..) beginning
      long.le
    rw [List.prefix_append_right_inj, argument, List.prefix_cons_iff] at beginning
    rcases beginning with rfl | ⟨reached, rfl, -⟩
    · simp at long
    · have tokens : tokenize (command.leadingText ++ first :: reached)
          = command.verb :: command.middle ++ Delimited.words isSpace (first :: reached) :=
        Delimited.words_flatMap_append (by decide) solid _
      have made := isSome_parse writes (Delimited.words_ne_nil visible reached)
      rw [tokens]
      refine iff_of_false ?_ (by omega)
      intro none
      rw [none] at made
      cases made
  · refine iff_of_true ?_ short
    have inside := List.prefix_of_prefix_length_le beginning (List.prefix_append ..) short
    obtain ⟨whole, rest, last, split, rfl, left⟩ := Delimited.prefix_flatMap inside
    have tokens : tokenize (whole.flatMap (· ++ [32]) ++ last)
        = whole ++ Delimited.words isSpace last :=
      Delimited.words_flatMap_append (by decide)
        (fun token member => solid token (by simp [split, member])) _
    rw [tokens]
    have size := congrArg List.length split
    simp only [List.length_cons, List.length_append] at size
    rcases left with rfl | ⟨part, others, rfl, begun⟩
    · rw [Delimited.words_nil, List.append_nil]
      refine parse_eq_none writes (by omega) ?_
      rintro first rest rfl
      obtain ⟨rfl, -⟩ := List.cons.inj split
      exact ⟨List.prefix_rfl, fun _ => rfl⟩
    · rw [Delimited.words_of_prefix (solid part (by simp [split])) begun]
      refine parse_eq_none writes (by simp at size ⊢; split <;> simp <;> omega) ?_
      intro first rest tokens
      cases whole with
      | nil =>
          obtain ⟨rfl, -⟩ := List.cons.inj split
          split at tokens
          · cases tokens
          · obtain ⟨rfl, rfl⟩ := List.cons.inj tokens
            exact ⟨begun, fun more => absurd rfl more⟩
      | cons head tail =>
          obtain ⟨rfl, -⟩ := List.cons.inj split
          obtain ⟨rfl, -⟩ := List.cons.inj tokens
          exact ⟨List.prefix_rfl, fun _ => rfl⟩

end ICommand

namespace ServerBuilder

/-- The rest of a log behind its whole records is one more line for the replay. -/
theorem replayLine_fragment (refusals : Refusals) (now : Int) (fragment : Bytes)
    (router : ShardRouter) (aof : AofLogger)
    : replayLine refusals now fragment router aof
      = match CommandFactory.parse (tokenize fragment) with
        | none => (router, aof)
        | some command =>
            ((command.execute refusals now router aof).router,
              (command.execute refusals now router aof).aof) := by
  unfold replayLine
  split
  · rename_i empty
    subst empty
    rfl
  · cases CommandFactory.parse (tokenize fragment) <;> rfl

/-- A log that has been cut short consists of whole records and a fragment of the next one.
Its replay is that of the whole records, followed by the command that the fragment spells;
it spells none exactly if it does not reach into the last argument that its record needs.
-/
theorem replayLines_cut {records : List ICommand}
    (written : ∀ record ∈ records, record.WellFormed ∧ record.isWrite = true) {cut : Bytes}
    (beginning : cut <+: encodeLines (records.map ICommand.serialize)) (clock : ℕ → Int)
    (refusals : ℕ → Refusals) (router : ShardRouter) (aof : AofLogger)
    : ∃ whole rest fragment,
        records = whole ++ rest
        ∧ cut = encodeLines (whole.map ICommand.serialize) ++ fragment
        ∧ newline ∉ fragment
        ∧ (let done :=
            replayLines clock refusals
              (getlines (encodeLines (whole.map ICommand.serialize))) router aof
          replayLines clock refusals (getlines cut) router aof
            = match CommandFactory.parse (tokenize fragment) with
              | none => done
              | some command =>
                  let last :=
                    command.execute (refusals whole.length) (clock whole.length) done.1 done.2
                  (last.router, last.aof))
        ∧ (CommandFactory.parse (tokenize fragment) = none
          ↔ ∀ next ∈ rest.head?, fragment.length ≤ next.leadingText.length) := by
  obtain ⟨texts, others, fragment, split, rfl, left⟩ := Delimited.prefix_flatMap beginning
  obtain ⟨whole, rest, rfl, rfl, rfl⟩ := List.map_eq_append_iff.mp split
  obtain ⟨wellFormed, unfinished⟩ := List.forall_mem_append.mp written
  have texts := fun record member => (wellFormed record member).1
  have lines : ∀ line ∈ whole.map ICommand.serialize, newline ∉ line := by
    simpa using fun record member => newline_notMem_serialize (texts record member)
  have cutLine : newline ∉ fragment := by
    rcases left with rfl | ⟨part, more, whole, begun⟩
    · simp
    · obtain ⟨next, after, rfl, rfl, -⟩ := List.map_eq_cons_iff.mp whole
      exact fun inside =>
        newline_notMem_serialize (unfinished next (by simp)).1 (begun.subset inside)
  refine ⟨whole, rest, fragment, rfl, rfl, cutLine, ?_, ?_⟩
  · intro done
    have replay := getlines_encodeLines_append lines cutLine
    have same : done = replayLines clock refusals (whole.map ICommand.serialize) router aof :=
      congrArg (fun lines => replayLines clock refusals lines router aof)
        (getlines_serialized texts)
    change replayLines clock refusals (getlines (encodeLines _ ++ fragment)) router aof = _
    rw [replay, replayLines_append, ← same]
    by_cases empty : fragment = []
    · subst empty
      rfl
    · simp only [empty, if_false, replayLines, List.length_map, Nat.add_zero,
        replayLine_fragment]
  · rcases left with rfl | ⟨part, more, whole, begun⟩
    · exact iff_of_true rfl (by simp)
    · obtain ⟨next, after, rfl, rfl, -⟩ := List.map_eq_cons_iff.mp whole
      obtain ⟨sound, writes⟩ := unfinished next (by simp)
      simpa using ICommand.parse_fragment_eq_none sound writes begun

end ServerBuilder

/-- A record whose time to live has been cut from a hundred seconds to one. -/
def cutTtl : Bytes := ascii "SET k v 1"

theorem replayLines_cut_ttl
    : ∃ whole rest fragment,
        [ICommand.set (ascii "k") (ascii "v") 100] = whole ++ rest
        ∧ cutTtl = encodeLines (whole.map ICommand.serialize) ++ fragment := by
  have written
      : ∀ record ∈ [ICommand.set (ascii "k") (ascii "v") 100],
          record.WellFormed ∧ record.isWrite = true := by decide
  have beginning
      : cutTtl
        <+: encodeLines ([ICommand.set (ascii "k") (ascii "v") 100].map ICommand.serialize) := by
    decide
  obtain ⟨whole, rest, fragment, split, cut, -⟩ :=
    ServerBuilder.replayLines_cut written beginning (fun _ => 0) (fun _ => .none)
      (.construct 1024 0) {}
  exact ⟨whole, rest, fragment, split, cut⟩

/-- The cut record stores its key for one second. -/
theorem replayLines_cut_fails
    : ¬ ∀ (records : List ICommand),
        (∀ record ∈ records, record.WellFormed ∧ record.isWrite = true)
        → ∀ (whole rest : List ICommand) (fragment : Bytes),
          records = whole ++ rest
          → newline ∉ fragment
          → encodeLines (whole.map ICommand.serialize) ++ fragment
              <+: encodeLines (records.map ICommand.serialize)
          → ∀ (clock : ℕ → Int) (refusals : ℕ → Refusals) (router : ShardRouter)
              (aof : AofLogger) (key : Bytes),
            (ServerBuilder.replayLines clock refusals
                (ServerBuilder.getlines
                  (encodeLines (whole.map ICommand.serialize) ++ fragment)) router aof).1.entry
                key
              = (ServerBuilder.replayLines clock refusals
                  (ServerBuilder.getlines (encodeLines (whole.map ICommand.serialize)))
                  router aof).1.entry key := by
  intro claim
  have same := claim [.set (ascii "k") (ascii "v") 100] (by decide) []
    [.set (ascii "k") (ascii "v") 100] cutTtl rfl (by decide) (by decide) (fun _ => 0)
    (fun _ => .none) (.construct 1024 0) (AofLogger.setReplaying true {}) (ascii "k")
  revert same
  decide

end InMemoryDB
