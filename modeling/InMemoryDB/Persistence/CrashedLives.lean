import InMemoryDB.Library.TornText
import InMemoryDB.Persistence.CrashRecovery

/-! Many lives of a server, each on the log that the one before has left. The logger appends, so
what a crash has torn is glued to the first record of the next life; nothing else is damaged.
-/

namespace InMemoryDB

-----------------------------------------------------------------------------------------
-- The keys of a store are words
-----------------------------------------------------------------------------------------

namespace ShardRouter

/-- Every key with an entry is a word, so that a record can name it. -/
def Spelled (router : ShardRouter) : Prop :=
  ∀ key value, router.entry key = some value → Delimited.IsWord isSpace key

variable {router : ShardRouter}

theorem spelled_construct (totalMemory exponent : ℕ)
    : (ShardRouter.construct totalMemory exponent).Spelled := by
  intro key value found
  rw [entry_construct] at found
  cases found

/-- A command makes an entry of its own key at most, and that is a word. -/
theorem Spelled.execute (spelled : router.Spelled) {command : ICommand}
    (wellFormed : command.WellFormed) (refusals : Refusals) (now : Int) (aof : AofLogger)
    : (command.execute refusals now router aof).router.Spelled := by
  intro key value found
  by_cases own : command.key? = some key
  · exact wellFormed.key own
  · rw [(command.entry_execute refusals now router aof key).2 own] at found
    exact spelled key value found

/-- An eviction makes no entry. -/
theorem Spelled.evictExpired (spelled : router.Spelled) (now : Int) (key : Bytes)
    : (router.evictExpired now key).2.Spelled := by
  intro other value found
  rw [entry_evictExpired] at found
  split at found
  · rename_i same
    obtain ⟨present, -⟩ := Option.filter_eq_some_iff.mp found
    exact same ▸ spelled key value present
  · exact spelled other value found

/-- A replay executes what the factory makes, whatever the lines are; by induction on them. -/
theorem Spelled.replayLines (spelled : router.Spelled) (clock : ℕ → Int)
    (refusals : ℕ → Refusals) (lines : List Bytes) (aof : AofLogger)
    : (ServerBuilder.replayLines clock refusals lines router aof).1.Spelled := by
  induction lines generalizing clock refusals router aof with
  | nil => exact spelled
  | cons line rest ih =>
      have executed
          : (ServerBuilder.replayLine (refusals 0) (clock 0) line router aof).1.Spelled := by
        unfold ServerBuilder.replayLine
        split
        · exact spelled
        · split
          · exact spelled
          · rename_i command parsed
            have wellFormed := CommandFactory.wellFormed_of_parse
              (fun _ => Delimited.isWord_of_mem_words) parsed
            exact spelled.execute wellFormed _ _ _
      exact ih executed _ _ _

end ShardRouter

-----------------------------------------------------------------------------------------
-- One life
-----------------------------------------------------------------------------------------

namespace ConcurrentStore

/-- A server that has been started on the log of an earlier one. -/
def resume (around : Surroundings) (totalMemory exponent : ℕ) (file : Bytes)
    : ConcurrentStore :=
  { LoggedStore.recover around totalMemory exponent file with clock := around.finish }

/-- The log has what it had at the start of a life and then the records of this life. -/
structure Adds (file : Bytes) (store : ConcurrentStore) : Prop where
  ready : store.aof.Ready
  content : store.aof.content = file ++ encodeLines (store.appended.map ICommand.serialize)
  wellFormed
    : ∀ record ∈ store.appended ++ store.pending.map PendingRecord.command, record.WellFormed
  spelled : store.router.Spelled

namespace Adds

variable {file : Bytes} {store next : ConcurrentStore}

theorem resume (around : Surroundings) (totalMemory exponent : ℕ) (file : Bytes)
    : (resume around totalMemory exponent file).Adds file := by
  have log
      : (ConcurrentStore.resume around totalMemory exponent file).aof
        = { file := file, running := true } :=
    ServerBuilder.aof_boot ..
  refine ⟨?_, ?_, by simp [ConcurrentStore.resume], ?_⟩
  · rw [log]
    exact ⟨rfl, rfl, rfl⟩
  · rw [log]
    simp [AofLogger.content, ConcurrentStore.resume, encodeLines]
  · exact (ShardRouter.spelled_construct totalMemory exponent).replayLines _ _ _ _

/-- An update holds a well-formed record, if any. -/
theorem update (adds : store.Adds file) (thread : Thread) (now : Int) {record : ICommand}
    (underLock : Bool) {outcome : ShardRouter × Bool} (spelled : outcome.1.Spelled)
    (sound : outcome.2 = true → record.WellFormed)
    : (store.update thread now record underLock outcome).Adds file := by
  refine { adds with wellFormed := ?_, spelled := spelled }
  cases logs : outcome.2 with
  | false => simpa [ConcurrentStore.update, logs] using adds.wellFormed
  | true =>
      simp only [ConcurrentStore.update, logs, if_true, List.map_append, ← List.append_assoc]
      exact List.forall_mem_append.mpr
        ⟨adds.wellFormed, List.forall_mem_singleton.mpr (sound logs)⟩

/-- By cases on the section. -/
theorem step {turn : Turn} (adds : store.Adds file) (taken : store.step turn = some next)
    : next.Adds file := by
  cases takes_of_step taken with
  | @execute worker refusals now command _ wellFormed =>
      have spelled := adds.spelled.execute wellFormed refusals now store.aof
      rw [(command.execute_eq_lockedSection refusals now store.router store.aof).1] at spelled
      exact adds.update (.worker worker) now command.logsUnderLock spelled fun _ => wellFormed
  | advanceTick keys => exact { adds with }
  | @sweep now key rest =>
      have spelled := adds.spelled.evictExpired now key
      have updated
          : (store.update .sweeper now (.del key) false
              ((store.router.evictExpired now key).2,
                (store.router.evictExpired now key).1)).Adds file := by
        apply adds.update .sweeper now false spelled
        intro evicted
        rw [ShardRouter.evictExpired_fst] at evicted
        obtain ⟨value, found, -⟩ := (Option.any_eq_true _ _).mp evicted
        exact adds.spelled key value found
      exact { updated with }
  | @append thread front record back holds =>
      refine { adds with ready := adds.ready.log _, content := ?_, wellFormed := ?_ }
      · rw [AofLogger.content_log adds.ready, adds.content, List.map_append,
          AofLogger.encodeLines_append, List.append_assoc]
        rfl
      · intro other member
        apply adds.wellFormed other
        simp only [holds, List.map_append, List.map_cons, List.mem_append, List.mem_cons,
          List.not_mem_nil, or_false] at member ⊢
        tauto
  | flushRound =>
      exact { adds with
        ready := adds.ready.flushRound
        content := (AofLogger.content_flushRound adds.ready).trans adds.content }

end Adds

end ConcurrentStore

-----------------------------------------------------------------------------------------
-- Many lives
-----------------------------------------------------------------------------------------

/-- The log after some lives, and the records that each has appended. A life ends at any moment
of a run of all threads and leaves any part of its log, of which only what the life has added
may be lost.
-/
inductive Lives : Bytes → List (List ICommand) → Prop
  | none : Lives [] []
  | life {file cut : Bytes} {logs : List (List ICommand)} (earlier : Lives file logs)
    (around : Surroundings) (totalMemory exponent : ℕ)
    {steps : List (ConcurrentStore × Turn)} {store : ConcurrentStore}
    (run
      : TransitionSystem.Run ConcurrentStore.step
          (ConcurrentStore.resume around totalMemory exponent file) steps store)
    (kept : file <+: cut) (left : cut <+: store.aof.content)
    : Lives cut (logs ++ [store.appended])

/-- The commands that the replay of a log executes, in their order. -/
def ServerBuilder.replayed (file : Bytes) : List ICommand :=
  (getlines file).filterMap commandOfLine

/-- What stands behind the last newline is replayed too. -/
theorem ServerBuilder.replayed_eq (file : Bytes)
    : replayed file
      = Delimited.Go.readBack newline commandOfLine file
        ++ (commandOfLine (Delimited.pieces newline file).2).toList := by
  unfold replayed getlines
  by_cases whole : (Delimited.pieces newline file).2 = []
  · have nothing : commandOfLine [] = none := rfl
    simp [whole, nothing, Delimited.Go.readBack]
  · simp only [whole, if_false, List.filterMap_append, Delimited.Go.readBack]
    cases found : commandOfLine (Delimited.pieces newline file).2 <;> simp [found]

namespace Lives

open Delimited (Go AgreesBut)

variable {file : Bytes} {logs : List (List ICommand)}

/-- Every life adds whole records and perhaps the beginning of the next one, by induction on the
lives.
-/
theorem exists_goes (lives : Lives file logs)
    : ∃ goes : List (Go UInt8 ICommand),
        List.Forall₂ (fun go log => go.items <+: log) goes logs
        ∧ file = goes.flatMap (Go.text newline ICommand.serialize)
        ∧ ∀ go ∈ goes, (∀ item ∈ go.items, item.WellFormed) ∧ newline ∉ go.fragment := by
  induction lives with
  | none => exact ⟨[], .nil, rfl, by simp⟩
  | @life file cut logs earlier around totalMemory exponent steps store run kept left ih =>
      obtain ⟨goes, begun, same, sound⟩ := ih
      have adds : store.Adds file :=
        run.preserves (fun adds taken => adds.step taken) (.resume around totalMemory exponent file)
      obtain ⟨more, rfl⟩ := kept
      rw [adds.content, List.prefix_append_right_inj] at left
      have wellFormed := (List.forall_mem_append.mp adds.wellFormed).1
      obtain ⟨whole, rest, fragment, appended, rfl, line⟩ := exists_whole wellFormed left
      refine ⟨goes ++ [⟨whole, fragment⟩], ?_, ?_, ?_⟩
      · rw [appended]
        exact List.rel_append begun (.cons (List.prefix_append _ _) .nil)
      · rw [same, List.flatMap_append, List.flatMap_singleton]
        rfl
      · refine List.forall_mem_append.mpr ⟨sound, List.forall_mem_singleton.mpr ⟨?_, line⟩⟩
        intro record member
        exact wellFormed record (appended ▸ List.mem_append_left _ member)

/-- However often a server dies, and in whatever moment: of the records that its lives have added as
a whole, the next replay executes all but the first of each life; and it executes the same commands
in the same order, but for one lost or made up for each life that has ended within a record. Where
none has, it executes exactly these records.
-/
theorem damage_of_crashes (lives : Lives file logs)
    : ∃ goes : List (Go UInt8 ICommand),
        List.Forall₂ (fun go log => go.items <+: log) goes logs
        ∧ file = goes.flatMap (Go.text newline ICommand.serialize)
        ∧ (∀ go ∈ goes, newline ∉ go.fragment)
        ∧ (goes.flatMap fun go => go.items.tail).Sublist (ServerBuilder.replayed file)
        ∧ AgreesBut (Go.torn goes) (goes.flatMap Go.items) (ServerBuilder.replayed file)
        ∧ ((∀ go ∈ goes, go.fragment = [])
          → ServerBuilder.replayed file = goes.flatMap Go.items) := by
  obtain ⟨goes, begun, rfl, sound⟩ := lives.exists_goes
  have survives := Go.survives goes
    (fun go member item among =>
      ServerBuilder.commandOfLine_serialize ((sound go member).1 item among))
    (fun go member =>
      ⟨fun item among =>
        ServerBuilder.newline_notMem_serialize ((sound go member).1 item among),
        (sound go member).2⟩)
  obtain ⟨count, few, agrees⟩ := survives.agrees
  have all
      : AgreesBut (Go.torn goes) (goes.flatMap Go.items)
          (ServerBuilder.replayed (goes.flatMap (Go.text newline ICommand.serialize))) := by
    rw [ServerBuilder.replayed_eq]
    split at few
    · rename_i whole
      rw [whole, ServerBuilder.commandOfLine, if_pos rfl]
      simpa using agrees.mono few
    · have last (command : Option ICommand) : AgreesBut 1 [] command.toList := by
        apply AgreesBut.of_length_le (Nat.zero_le 1)
        cases command <;> simp
      simpa using (agrees.append (last _)).mono few
  refine ⟨goes, begun, rfl, fun go member => (sound go member).2, ?_, all, ?_⟩
  · rw [ServerBuilder.replayed_eq]
    exact survives.kept.trans (List.sublist_append_left _ _)
  · intro whole
    have none : Go.torn goes = 0 := by simpa [Go.torn, List.countP_eq_zero] using whole
    exact (none ▸ all).eq.symm

/-- A record is torn; the next life adds two, and the first of them is lost. -/
theorem damage_of_crashes_torn
    : ∃ (file : Bytes) (goes : List (Go UInt8 ICommand)),
        file = ascii "SET k v 1SET i x 5\nSET j y 5\n"
        ∧ file = goes.flatMap (Go.text newline ICommand.serialize)
        ∧ (goes.flatMap fun go => go.items.tail).Sublist (ServerBuilder.replayed file)
        ∧ AgreesBut (Go.torn goes) (goes.flatMap Go.items) (ServerBuilder.replayed file) := by
  have torn
      : TransitionSystem.trace ConcurrentStore.step
          (ConcurrentStore.resume (.instant 0) 1024 0 [])
          [.execute 0 .none 0 (.set (ascii "k") (ascii "v") 100), .append (.worker 0)]
        = some _ := rfl
  have glued
      : TransitionSystem.trace ConcurrentStore.step
          (ConcurrentStore.resume (.instant 0) 1024 0 (ascii "SET k v 1"))
          [.execute 0 .none 0 (.set (ascii "i") (ascii "x") 5), .append (.worker 0),
            .execute 0 .none 0 (.set (ascii "j") (ascii "y") 5), .append (.worker 0)]
        = some _ := rfl
  have begins
      : ascii "SET k v 1"
        <+: encodeLines ([ICommand.set (ascii "k") (ascii "v") 100].map ICommand.serialize) := by
    decide
  have first := Lives.none.life (.instant 0) 1024 0 (TransitionSystem.run_of_trace torn)
    (List.nil_prefix) begins
  have second := first.life (.instant 0) 1024 0 (TransitionSystem.run_of_trace glued)
    (List.prefix_append (ascii "SET k v 1") (ascii "SET i x 5\nSET j y 5\n")) List.prefix_rfl
  obtain ⟨goes, -, same, -, kept, agrees, -⟩ := second.damage_of_crashes
  exact ⟨_, goes, rfl, same, kept, agrees⟩

end Lives

end InMemoryDB
