import InMemoryDB.Core.Freshness
import InMemoryDB.Network.Pipeline
import InMemoryDB.Persistence.LoggedStore

/-! The lines of a client that is alone with the store: they are executed one after the other,
at one instant and with memory for all.
-/

namespace InMemoryDB

/-- The command that a line makes, if it makes one. -/
def commandOf (line : Bytes) : Option ICommand := CommandFactory.parse (tokenize line)

/-- The command of a numbered line. -/
def commandAt (lines : List Bytes) (number : ℕ) : Option ICommand :=
  lines[number]?.bind commandOf

theorem commandAt_append_left {lines : List Bytes} {number : ℕ}
    (within : number < lines.length) (more : List Bytes)
    : commandAt (lines ++ more) number = commandAt lines number := by
  rw [commandAt, List.getElem?_append_left within, commandAt]

theorem lt_length_of_commandAt {lines : List Bytes} {number : ℕ} {command : ICommand}
    (made : commandAt lines number = some command)
    : number < lines.length := by
  obtain ⟨line, found, -⟩ := Option.bind_eq_some_iff.mp made
  exact (List.getElem?_eq_some_iff.mp found).1

/-- The numbered line is a write of the key. -/
def WritesAt (lines : List Bytes) (key : Bytes) (number : ℕ) : Prop :=
  ∃ command,
    commandAt lines number = some command ∧ command.key? = some key ∧ command.isWrite = true

/-- Two commands work on one key, and one of them writes it. -/
def ICommand.Conflicts (first second : ICommand) : Prop :=
  first.key? ≠ none
  ∧ first.key? = second.key?
  ∧ (first.isWrite = true ∨ second.isWrite = true)

instance (first second : ICommand) : Decidable (first.Conflicts second) :=
  inferInstanceAs (Decidable (_ ∧ _))

namespace LoggedStore

/-- The reply to one line, and the store that it leaves. -/
def answer (now : Int) (line : Bytes) (store : LoggedStore) : Bytes × LoggedStore :=
  match commandOf line with
  | none => (refusalOf line, store)
  | some command =>
      let done := command.execute .none now store.router store.aof
      (done.reply, ⟨done.router, done.aof⟩)

/-- The replies to lines that are answered one after the other, and the store after them. -/
def answerAll (now : Int) : List Bytes → LoggedStore → List Bytes × LoggedStore
  | [], store => ([], store)
  | line :: rest, store =>
      let first := store.answer now line
      let later := answerAll now rest first.2
      (first.1 :: later.1, later.2)

variable (now : Int)

/-- Lines behind others are answered on the store that those leave, by induction. -/
theorem answerAll_append (front back : List Bytes) (store : LoggedStore)
    : answerAll now (front ++ back) store
      = ((answerAll now front store).1 ++ (answerAll now back (answerAll now front store).2).1,
        (answerAll now back (answerAll now front store).2).2) := by
  induction front generalizing store with
  | nil => rfl
  | cons line rest ih => simp only [List.cons_append, answerAll, ih]

/-- Every line is answered on the store that the lines in front of it leave, by induction. -/
theorem replies_answerAll (lines : List Bytes) (store : LoggedStore) (number : ℕ)
    : (answerAll now lines store).1[number]?
      = lines[number]?.map fun line =>
          (answer now line (answerAll now (lines.take number) store).2).1 := by
  induction lines generalizing store number with
  | nil => rfl
  | cons line rest ih =>
      cases number with
      | zero => rfl
      | succ number =>
          simp only [answerAll, List.getElem?_cons_succ, List.take_succ_cons]
          exact ih _ number

theorem length_answerAll (lines : List Bytes) (store : LoggedStore)
    : (answerAll now lines store).1.length = lines.length := by
  induction lines generalizing store with
  | nil => rfl
  | cons line rest ih => exact congrArg (· + 1) (ih _)

variable {now}

theorem answer_of_command {line : Bytes} {command : ICommand}
    (made : commandOf line = some command) (store : LoggedStore)
    : (store.answer now line).1 = (command.effect now (command.entryIn store.router)).reply
      ∧ ∀ key,
          (store.answer now line).2.router.entry key
            = if command.key? = some key then
                (command.effect now (command.entryIn store.router)).entry
              else store.router.entry key := by
  have done := command.realizes store.router store.aof now
  rw [answer, made]
  exact ⟨done.reply, done.entry⟩

/-- The store after one line more. -/
theorem answerAll_take_succ {lines : List Bytes} {number : ℕ} {line : Bytes}
    (found : lines[number]? = some line) (store : LoggedStore)
    : (answerAll now (lines.take (number + 1)) store).2
      = ((answerAll now (lines.take number) store).2.answer now line).2 := by
  rw [List.take_add_one, found, answerAll_append]
  rfl

/-- Lines that do not write a key leave its entry. One after the other they do, by induction
on how many there are.
-/
theorem entry_answerAll_take {lines : List Bytes} {key : Bytes} {first : ℕ} (more : ℕ)
    (quiet : ∀ number, first ≤ number → number < first + more → ¬ WritesAt lines key number)
    (store : LoggedStore)
    : (answerAll now (lines.take (first + more)) store).2.router.entry key
      = (answerAll now (lines.take first) store).2.router.entry key := by
  induction more with
  | zero => rfl
  | succ more ih =>
      have earlier := ih fun number after before => quiet number after (by omega)
      have last := quiet (first + more) (by omega) (by omega)
      rw [← earlier, ← Nat.add_assoc]
      cases found : lines[first + more]? with
      | none => rw [List.take_add_one, found, Option.toList_none, List.append_nil]
      | some line =>
          rw [answerAll_take_succ found]
          cases made : commandOf line with
          | none => rw [answer, made]
          | some command =>
              rw [(answer_of_command made _).2]
              split
              · rename_i own
                have reads : command.isWrite = false := by
                  have at_ : commandAt lines (first + more) = some command := by
                    rw [commandAt, found, Option.bind_some, made]
                  by_contra writes
                  exact last ⟨command, at_, own, by simpa using writes⟩
                obtain ⟨reply, kept⟩ := ICommand.effect_of_read reads now
                  (command.entryIn (answerAll now (lines.take (first + more)) store).2.router)
                rw [kept, ICommand.entryIn, own, Option.bind_some]
              · rfl

/-- The entry of a key is the same behind two numbers that no write of it separates. -/
theorem entry_answerAll_congr {lines : List Bytes} {key : Bytes} {first second : ℕ}
    (same : ∀ number, WritesAt lines key number → (number < first ↔ number < second))
    (store : LoggedStore)
    : (answerAll now (lines.take first) store).2.router.entry key
      = (answerAll now (lines.take second) store).2.router.entry key := by
  rcases Nat.le_total first second with order | order
  · obtain ⟨more, rfl⟩ := Nat.exists_eq_add_of_le order
    symm
    apply entry_answerAll_take
    intro number after before writes
    have := same number writes
    omega
  · obtain ⟨more, rfl⟩ := Nat.exists_eq_add_of_le order
    apply entry_answerAll_take
    intro number after before writes
    have := same number writes
    omega

end LoggedStore

-----------------------------------------------------------------------------------------
-- Lines whose commands are executed in another order
-----------------------------------------------------------------------------------------

/-- A connection, the keys that its commands use, and the store and the time that its lines
start from.
-/
structure Session where
  id : ℕ
  keys : List Bytes
  store : LoggedStore
  clock : Int

namespace Session

/-- The replies to the lines, one after the other, and the store that they leave. -/
def answers (session : Session) (lines : List Bytes) : List Bytes × LoggedStore :=
  session.store.answerAll session.clock lines

/-- The entry that the lines in front of a number leave under a key. -/
def entryBefore (session : Session) (lines : List Bytes) (number : ℕ) (key : Bytes)
    : Option CacheAlignedValue :=
  (session.answers (lines.take number)).2.router.entry key

/-- An entry shows what another one does, and has only expired if that has. -/
structure Shows (session : Session) (clock : Int) (entry reference : Option CacheAlignedValue)
    : Prop where
  content : content entry = content reference
  fresh : Fresh clock entry → Fresh session.clock reference

/-- Of the numbered lines some wait. The commands of the others have been executed, and none
before an earlier one that it conflicts with, so that every key shows what the writes in front
of some number leave, which are those of its writes that do not wait.
-/
structure Scheduled (session : Session) (lines : List Bytes) (waiting : List ℕ)
    (router : ShardRouter) (clock : Int)
    : Prop where
  nodup : waiting.Nodup
  issued : ∀ number ∈ waiting, number < lines.length
  closed
    : ∀ {first second : ℕ} {command command' : ICommand},
        first < second
        → commandAt lines first = some command
        → commandAt lines second = some command'
        → command.Conflicts command'
        → first ∈ waiting
        → second ∈ waiting
  stored
    : ∀ key ∈ session.keys,
        ∃ bound ≤ lines.length,
          (∀ number, WritesAt lines key number → (number < bound ↔ number ∉ waiting))
          ∧ session.Shows clock (router.entry key) (session.entryBefore lines bound key)

namespace Scheduled

variable {session : Session} {lines : List Bytes} {waiting rest : List ℕ} {number : ℕ}
  {router next : ShardRouter} {clock now : Int}

/-- Before the first line. -/
theorem start
    (shows
      : ∀ key ∈ session.keys,
          session.Shows clock (router.entry key) (session.store.router.entry key))
    : session.Scheduled [] [] router clock where
  nodup := .nil
  issued := by simp
  closed := by simp
  stored := by
    intro key own
    refine ⟨0, le_rfl, ?_, shows key own⟩
    intro number writing
    obtain ⟨command, made, -⟩ := writing
    cases made

theorem perm (scheduled : session.Scheduled lines waiting router clock)
    (moved : waiting.Perm rest)
    : session.Scheduled lines rest router clock where
  nodup := moved.nodup_iff.mp scheduled.nodup
  issued number member := scheduled.issued number (moved.mem_iff.mpr member)
  closed order first second conflict member :=
    moved.mem_iff.mp (scheduled.closed order first second conflict (moved.mem_iff.mpr member))
  stored key own := by
    obtain ⟨bound, within, writes, shows⟩ := scheduled.stored key own
    exact ⟨bound, within, fun number writing => by rw [writes number writing, moved.mem_iff], shows⟩

/-- The store changes, but not in what the keys show. -/
theorem keep (scheduled : session.Scheduled lines waiting router clock)
    (kept
      : ∀ key ∈ session.keys,
          content (next.entry key) = content (router.entry key)
          ∧ (Fresh now (next.entry key) → Fresh clock (router.entry key)))
    : session.Scheduled lines waiting next now :=
  { scheduled with
    stored := by
      intro key own
      obtain ⟨bound, within, writes, shows⟩ := scheduled.stored key own
      obtain ⟨same, fresh⟩ := kept key own
      exact ⟨bound, within, writes, same.trans shows.content, fun new => shows.fresh (fresh new)⟩ }

/-- One more line waits. -/
theorem issue (scheduled : session.Scheduled lines waiting router clock) (line : Bytes)
    : session.Scheduled (lines ++ [line]) (waiting ++ [lines.length]) router clock where
  nodup := by
    have fresh : lines.length ∉ waiting := fun member =>
      lt_irrefl _ (scheduled.issued _ member)
    simpa [List.nodup_append, scheduled.nodup] using fun number member =>
      (scheduled.issued number member).ne
  issued := by
    intro number member
    rw [List.length_append, List.length_singleton]
    rcases List.mem_append.mp member with before | last
    · have := scheduled.issued number before
      omega
    · rw [List.mem_singleton.mp last]
      omega
  closed := by
    intro first second command command' order made made' conflict member
    have within := lt_length_of_commandAt made'
    rw [List.length_append, List.length_singleton] at within
    by_cases last : second = lines.length
    · exact List.mem_append_right _ (List.mem_singleton.mpr last)
    · have before : first ∈ waiting := by
        rcases List.mem_append.mp member with before | new
        · exact before
        · have := List.mem_singleton.mp new
          omega
      rw [commandAt_append_left (by omega)] at made made'
      exact List.mem_append_left _ (scheduled.closed order made made' conflict before)
  stored := by
    intro key own
    obtain ⟨bound, within, writes, shows⟩ := scheduled.stored key own
    refine ⟨bound, by simp; omega, ?_, ?_⟩
    · intro number writing
      by_cases last : number = lines.length
      · subst last
        simp only [List.mem_append, List.mem_singleton, or_true, not_true, iff_false]
        omega
      · obtain ⟨command, made, named⟩ := writing
        have before := lt_length_of_commandAt made
        rw [List.length_append, List.length_singleton] at before
        rw [commandAt_append_left (by omega)] at made
        simpa [last] using writes number ⟨command, made, named⟩
    · rwa [entryBefore, List.take_append_of_le_length within]

/-- The others wait as before. -/
theorem mem_rest (scheduled : session.Scheduled lines waiting router clock)
    (split : waiting.Perm (number :: rest)) {other : ℕ}
    : other ∈ rest ↔ other ∈ waiting ∧ other ≠ number := by
  have nodup := List.nodup_cons.mp (split.nodup_iff.mp scheduled.nodup)
  rw [split.mem_iff, List.mem_cons]
  constructor
  · intro member
    exact ⟨.inr member, fun same => nodup.1 (same ▸ member)⟩
  · rintro ⟨same | member, different⟩
    · exact absurd same different
    · exact member

/-- A line that makes no command no longer waits. -/
theorem refuse (scheduled : session.Scheduled lines waiting router clock)
    (split : waiting.Perm (number :: rest)) (refused : commandAt lines number = none)
    : session.Scheduled lines rest router clock := by
  have made_other {other : ℕ} {command : ICommand} (made : commandAt lines other = some command)
      : other ≠ number := by
    rintro rfl
    cases refused.symm.trans made
  constructor
  case nodup => exact (List.nodup_cons.mp (split.nodup_iff.mp scheduled.nodup)).2
  case issued => exact fun other member =>
    scheduled.issued other ((scheduled.mem_rest split).mp member).1
  case closed =>
    intro first second command command' order made made' conflict member
    have later :=
      scheduled.closed order made made' conflict ((scheduled.mem_rest split).mp member).1
    exact (scheduled.mem_rest split).mpr ⟨later, made_other made'⟩
  case stored =>
    intro key own
    obtain ⟨bound, within, writes, shows⟩ := scheduled.stored key own
    refine ⟨bound, within, ?_, shows⟩
    intro other writing
    rw [writes other writing, scheduled.mem_rest split]
    obtain ⟨command, made, -⟩ := writing
    rw [and_iff_left (made_other made)]

section Execution

variable {command : ICommand}

/-- Of the writes of its key, those in front of the command no longer wait, and those behind it
do.
-/
theorem waits_iff (scheduled : session.Scheduled lines waiting router clock)
    (waits : number ∈ waiting) (made : commandAt lines number = some command)
    (inTurn
      : ∀ earlier ∈ waiting,
          earlier < number
          → ∀ other, commandAt lines earlier = some other → ¬ other.Conflicts command)
    {key : Bytes} (own : command.key? = some key) {other : ℕ}
    (writing : WritesAt lines key other)
    : other ∉ waiting ↔ other < number := by
  obtain ⟨writer, made', named, writes⟩ := writing
  constructor
  · intro gone
    by_contra behind
    have different : other ≠ number := fun same => gone (same ▸ waits)
    have conflict : command.Conflicts writer :=
      ⟨by simp [own], own.trans named.symm, .inr writes⟩
    exact gone (scheduled.closed (by omega) made made' conflict waits)
  · intro before member
    exact inTurn other member before writer made'
      ⟨by simp [named], named.trans own.symm, .inl writes⟩

/-- The key of the command shows what the lines in front of it leave. -/
theorem shows (scheduled : session.Scheduled lines waiting router clock)
    (waits : number ∈ waiting) (made : commandAt lines number = some command)
    (inTurn
      : ∀ earlier ∈ waiting,
          earlier < number
          → ∀ other, commandAt lines earlier = some other → ¬ other.Conflicts command)
    {key : Bytes} (named : command.key? = some key) (own : key ∈ session.keys)
    : session.Shows clock (router.entry key) (session.entryBefore lines number key) := by
  obtain ⟨bound, within, writes, shows⟩ := scheduled.stored key own
  have same : session.entryBefore lines bound key = session.entryBefore lines number key := by
    apply LoggedStore.entry_answerAll_congr
    intro other writing
    rw [writes other writing, scheduled.waits_iff waits made inTurn named writing]
  rwa [same] at shows

/-- A command that overtakes none it conflicts with is executed. It is given the reply to its
line, and the keys show what the store would show behind that.
-/
theorem execute (scheduled : session.Scheduled lines waiting router clock)
    (split : waiting.Perm (number :: rest)) (made : commandAt lines number = some command)
    (inTurn
      : ∀ earlier ∈ waiting,
          earlier < number
          → ∀ other, commandAt lines earlier = some other → ¬ other.Conflicts command)
    (own : ∀ key, command.key? = some key → key ∈ session.keys)
    (fresh : ∀ key ∈ session.keys, Fresh now (router.entry key)) (advances : clock ≤ now)
    (changed
      : ∀ key,
          next.entry key
            = if command.key? = some key then
                (command.effect now (command.entryIn router)).entry
              else router.entry key)
    : session.Scheduled lines rest next now
      ∧ (session.answers lines).1[number]?
        = some (command.effect now (command.entryIn router)).reply := by
  have waits : number ∈ waiting := split.mem_iff.mpr List.mem_cons_self
  obtain ⟨line, found, parsed⟩ := Option.bind_eq_some_iff.mp made
  obtain ⟨reply, left⟩ := @LoggedStore.answer_of_command session.clock _ _ parsed
    (session.answers (lines.take number)).2
  have alike : (command.effect now (command.entryIn router)).Alike now session.clock
      (command.effect session.clock
        (command.entryIn (session.answers (lines.take number)).2.router)) := by
    unfold ICommand.entryIn
    cases named : command.key? with
    | none => exact command.alike (by simp [Fresh]) (by simp [Fresh]) rfl
    | some key =>
        have shows := scheduled.shows waits made inTurn named (own key named)
        have lasts := fresh key (own key named)
        exact command.alike lasts (shows.fresh (lasts.earlier advances)) shows.content
  refine ⟨⟨?_, ?_, ?_, ?_⟩, ?_⟩
  · exact (List.nodup_cons.mp (split.nodup_iff.mp scheduled.nodup)).2
  · exact fun other member => scheduled.issued other ((scheduled.mem_rest split).mp member).1
  · intro first second earlier later order made' made'' conflict member
    have before := ((scheduled.mem_rest split).mp member).1
    refine (scheduled.mem_rest split).mpr
      ⟨scheduled.closed order made' made'' conflict before, ?_⟩
    rintro rfl
    obtain rfl := Option.some.inj (made.symm.trans made'')
    exact inTurn first before order earlier made' conflict
  · intro key mine
    rw [changed key]
    by_cases named : command.key? = some key
    · rw [if_pos named]
      have behind : session.entryBefore lines (number + 1) key
          = (command.effect session.clock
              (command.entryIn (session.answers (lines.take number)).2.router)).entry := by
        rw [entryBefore, answers, LoggedStore.answerAll_take_succ found]
        exact (left key).trans (if_pos named)
      refine ⟨number + 1, lt_length_of_commandAt made, ?_, ?_, ?_⟩
      · intro other writing
        have order := scheduled.waits_iff waits made inTurn named writing
        rw [scheduled.mem_rest split, not_and_or, not_not, order]
        omega
      · rw [behind, alike.content]
      · rw [behind]
        exact alike.fresh
    · rw [if_neg named]
      obtain ⟨bound, within, writes, shows⟩ := scheduled.stored key mine
      refine ⟨bound, within, ?_, shows.content, fun new => shows.fresh (new.earlier advances)⟩
      intro other writing
      have different : other ≠ number := by
        rintro rfl
        obtain ⟨writer, made', own', -⟩ := writing
        obtain rfl := Option.some.inj (made.symm.trans made')
        exact named own'
      rw [writes other writing, scheduled.mem_rest split, and_iff_left different]
  · rw [answers, LoggedStore.replies_answerAll, found, Option.map_some]
    exact congrArg some (reply.trans alike.reply.symm)

end Execution

/-- Once no line waits, the keys show what all lines leave. -/
theorem complete (scheduled : session.Scheduled lines [] router clock) {key : Bytes}
    (own : key ∈ session.keys)
    : session.Shows clock (router.entry key) ((session.answers lines).2.router.entry key) := by
  obtain ⟨bound, within, writes, shows⟩ := scheduled.stored key own
  have same : session.entryBefore lines bound key = session.entryBefore lines lines.length key := by
    apply LoggedStore.entry_answerAll_congr
    intro number writing
    rw [writes number writing]
    obtain ⟨command, made, -⟩ := writing
    simpa using lt_length_of_commandAt made
  rwa [same, entryBefore, List.take_length] at shows

end Scheduled

end Session

end InMemoryDB
