import InMemoryDB.Persistence.Holding

/-! A restart reconstructs the store. The store before it and the replayed one are both
compared with the store of the same run without any restart.
-/

namespace InMemoryDB

-----------------------------------------------------------------------------------------
-- Runs with restarts
-----------------------------------------------------------------------------------------

/-- A running server takes an event, or is stopped and started again, perhaps with another
limit of memory or another number of shards.
-/
inductive Happening where
  | event (event : Event)
  | restart (totalMemory exponent : ℕ)

namespace LoggedStore

/-- The log is shut down, and a new server starts on its file. -/
def restart (around : Surroundings) (totalMemory exponent : ℕ) (store : LoggedStore)
    : LoggedStore :=
  let (router, aof) :=
    ServerBuilder.boot around.clock around.refusals totalMemory exponent store.aof.shutdown.file
  ⟨router, aof⟩

def undergo (around : Surroundings) (happening : Happening) (store : LoggedStore)
    : LoggedStore :=
  match happening with
  | .event event => store.perform around event
  | .restart totalMemory exponent => store.restart around totalMemory exponent

def undergoAll (run : List (Surroundings × Happening)) (store : LoggedStore) : LoggedStore :=
  run.foldl (fun store happening => store.undergo happening.1 happening.2) store

/-- The live value of a key and its time to live. -/
def liveValue (now : Int) (key : Bytes) (store : LoggedStore) : Option (ValueVariant × Int) :=
  (liveEntry now (store.router.entry key)).map fun value => (value.data, value.ttlSeconds)

end LoggedStore

/-- The run with its restarts left out. -/
def uninterrupted (run : List (Surroundings × Happening)) : List (Surroundings × Event) :=
  run.filterMap fun happening =>
    match happening.2 with
    | .event event => some (happening.1, event)
    | .restart .. => none

/-- No positive time to live, counted from the original write, runs out in the store while
the next happening takes place.
-/
def NoneExpires (run : List (Surroundings × Happening)) (store : LoggedStore) : Prop :=
  ∀ front around happening back,
    run = front ++ (around, happening) :: back
    → ∀ key value,
        (store.performAll (uninterrupted front)).router.entry key = some value
        → value.tombstoned = false
        → 0 < value.ttlSeconds
        → value.isExpired around.finish = false

-----------------------------------------------------------------------------------------
-- The store, its log and the uninterrupted store
-----------------------------------------------------------------------------------------

/-- All that a store holds lasts until a limit. -/
def LoggedStore.LastsUntil (limit : Int) (store : LoggedStore) : Prop :=
  ∀ key, Lasts (holding (store.router.entry key)) limit

/-- Values that are not expired at the limit last until then. -/
theorem LoggedStore.LastsUntil.of_fresh {limit : Int} {store : LoggedStore}
    (fresh
      : ∀ key value,
          store.router.entry key = some value
          → value.tombstoned = false
          → 0 < value.ttlSeconds
          → value.isExpired limit = false)
    : store.LastsUntil limit := by
  intro key found held positive
  obtain ⟨value, present, kept, -, ttl, born⟩ := holding_eq_some held
  rw [ttl] at positive
  have alive := fresh key value present kept positive
  rw [← Bool.not_eq_true, CacheAlignedValue.isExpired_iff_of_pos positive] at alive
  rw [ttl, born]
  omega

/-- The store of a run holds what that of the uninterrupted run holds, and so does every
replay of its log.
-/
structure Restartable (now : Int) (original store : LoggedStore) (records : List ICommand)
    : Prop where
  past : ∀ key value, original.router.entry key = some value → value.createdAt ≤ now
  originalReady : original.aof.Ready
  ready : store.aof.Ready
  content : store.aof.content = encodeLines (records.map ICommand.serialize)
  wellFormed : ∀ record ∈ records, record.WellFormed
  words
    : ∀ key value, store.router.entry key = some value → Delimited.IsWord isSpace key
  holds
    : ∀ key, Holds now (store.router.entry key) (holding (original.router.entry key))
  replayable
    : ∀ key, Replayable now (holding (original.router.entry key)) (recordsOf key records)

namespace Restartable

variable {now : Int} {original store : LoggedStore} {records : List ICommand}

theorem later {later : Int} (restartable : Restartable now original store records)
    (order : now ≤ later)
    : Restartable later original store records :=
  { restartable with
    past := fun key value found => (restartable.past key value found).trans order
    holds := fun key => (restartable.holds key).later order
    replayable := fun key => (restartable.replayable key).later order }

/-- A command keeps the invariant. Its record is appended only if it is logged, and an
unlogged command changes nothing that is held.
-/
theorem execute (restartable : Restartable now original store records)
    (lasts : original.LastsUntil now) {command : ICommand} (wellFormed : command.WellFormed)
    : Restartable now (original.access now (.execute .none command wellFormed))
        (store.access now (.execute .none command wellFormed))
        (records
          ++ if (command.effect now (command.entryIn store.router)).logged then [command]
            else []) := by
  have first := LoggedStore.executed_of_roomy restartable.originalReady now wellFormed
  have second := LoggedStore.executed_of_roomy restartable.ready now wellFormed
  have held (key : Bytes) := holding_effect command (restartable.past key) (lasts key)
  constructor
  case originalReady => exact first.ready
  case ready => exact second.ready
  case past =>
    intro key
    rw [first.entry]
    split
    · exact ICommand.past_effect (restartable.past key)
    · exact restartable.past key
  case content =>
    rw [second.content, restartable.content, ← AofLogger.encodeLines_append, List.map_append]
    split <;> rfl
  case wellFormed =>
    refine List.forall_mem_append.mpr ⟨restartable.wellFormed, ?_⟩
    split
    · simpa using wellFormed
    · simp
  case words =>
    intro key value found
    rw [second.entry] at found
    split at found
    · rename_i own
      exact wellFormed.key own
    · exact restartable.words key value found
  case holds =>
    intro key
    rw [first.entry, second.entry]
    split
    · rename_i own
      rw [held key]
      exact (restartable.holds key).effect le_rfl (lasts key)
    · exact restartable.holds key
  case replayable =>
    intro key
    rw [first.entry, recordsOf_append]
    split
    · rename_i own
      have entry : command.entryIn store.router = store.router.entry key := by
        rw [ICommand.entryIn, own, Option.bind_some]
      rw [held key, entry]
      split
      · rw [recordsOf_own own]
        exact (restartable.replayable key).record command
      · rename_i silent
        rw [(restartable.holds key).hold_of_unlogged (lasts key) (by simpa using silent)]
        simpa [recordsOf] using restartable.replayable key
    · rename_i other
      split
      · rw [recordsOf_other other, List.append_nil]
        exact restartable.replayable key
      · simpa [recordsOf] using restartable.replayable key

/-- A sweep keeps the invariant. It only removes and logs what is not held. -/
theorem sweep (restartable : Restartable now original store records)
    (lasts : original.LastsUntil now) (key : Bytes)
    : Restartable now (original.access now (.sweep key)) (store.access now (.sweep key))
        (records
          ++ if (store.router.entry key).any fun value => !value.isLive now then [.del key]
            else []) := by
  have first := LoggedStore.swept restartable.originalReady now key
  have second := LoggedStore.swept restartable.ready now key
  constructor
  case originalReady => exact first.ready
  case ready => exact second.ready
  case past =>
    intro other value found
    rw [first.entry] at found
    split at found
    · exact restartable.past key value (Option.filter_eq_some_iff.mp found).1
    · exact restartable.past other value found
  case content =>
    rw [second.content, restartable.content, ← AofLogger.encodeLines_append, List.map_append]
    split <;> rfl
  case wellFormed =>
    refine List.forall_mem_append.mpr ⟨restartable.wellFormed, ?_⟩
    split
    · rename_i dead
      obtain ⟨value, found, -⟩ := (Option.any_eq_true _ _).mp dead
      have word : (ICommand.del key).WellFormed := restartable.words key value found
      simpa using word
    · simp
  case words =>
    intro other value found
    rw [second.entry] at found
    split at found
    · rename_i same
      exact same ▸ restartable.words key value (Option.filter_eq_some_iff.mp found).1
    · exact restartable.words other value found
  case holds =>
    intro other
    rw [first.entry, second.entry]
    split
    · rename_i same
      rw [holding_liveEntry (restartable.past key) (lasts key)]
      exact (restartable.holds key).sweep (lasts key)
    · exact restartable.holds other
  case replayable =>
    intro other
    rw [first.entry, recordsOf_append]
    split
    · rename_i same
      subst other
      rw [holding_liveEntry (restartable.past key) (lasts key)]
      split
      · rename_i dead
        have nothing := (restartable.holds key).eq_none_of_swept (lasts key) dead
        rw [recordsOf_own rfl, nothing]
        exact (restartable.replayable key).record (.del key)
      · simpa [recordsOf] using restartable.replayable key
    · rename_i different
      split
      · rw [recordsOf_other (by simpa [ICommand.key?] using Ne.symm different), List.append_nil]
        exact restartable.replayable other
      · simpa [recordsOf] using restartable.replayable other

/-- A round of the flush thread keeps the invariant, as the log loses nothing. -/
theorem flushRound (restartable : Restartable now original store records)
    : Restartable now (original.access now .flushRound) (store.access now .flushRound)
        records :=
  { restartable with
    originalReady := restartable.originalReady.flushRound
    ready := restartable.ready.flushRound
    content := (AofLogger.content_flushRound restartable.ready).trans restartable.content }

/-- The loop of a tick keeps the invariant, by induction on the keys it takes; a sweep puts
nothing into the store that could expire.
-/
theorem sweepAll {keys : List Bytes} {clock : ℕ → Int} {limit : Int}
    (restartable : Restartable now original store records) (monotone : Monotone clock)
    (started : now ≤ clock 0) (finished : ∀ turn, clock turn ≤ limit)
    (lasts : original.LastsUntil limit)
    : ∃ records,
        Restartable limit (original.accessAll (timed clock (keys.map .sweep)))
          (store.accessAll (timed clock (keys.map .sweep))) records := by
  induction keys generalizing clock original store records now with
  | nil => exact ⟨records, restartable.later (started.trans (finished 0))⟩
  | cons key rest ih =>
      have here := restartable.later started
      have lasting : original.LastsUntil (clock 0) := fun key => (lasts key).before (finished 0)
      refine ih (here.sweep lasting key) (fun _ _ order => monotone (Nat.succ_le_succ order))
        (monotone (by omega)) (fun turn => finished _) ?_
      intro other
      rw [(LoggedStore.swept restartable.originalReady (clock 0) key).entry]
      split
      · rw [holding_liveEntry (here.past key) (lasting key)]
        exact lasts key
      · exact lasts other

/-- An event keeps the invariant from its start to its finish. -/
theorem perform {around : Surroundings}
    (restartable : Restartable around.start original store records)
    (roomy : around.Roomy) (lasts : original.LastsUntil around.finish) (event : Event)
    : ∃ records,
        Restartable around.finish (original.perform around event) (store.perform around event)
          records := by
  have started := (around.within 0).1
  have finished := (around.within 0).2
  cases event with
  | request line =>
      cases parsed : CommandFactory.parse (tokenize line) with
      | none =>
          simp only [LoggedStore.perform, parsed]
          exact ⟨records, restartable.later (started.trans finished)⟩
      | some command =>
          have wellFormed := CommandFactory.wellFormed_of_parse
            (fun _ => Delimited.isWord_of_mem_words) parsed
          have executed := (restartable.later started).execute
            (fun key => (lasts key).before finished) wellFormed
          simp only [LoggedStore.perform, parsed, roomy 0]
          exact ⟨_, executed.later finished⟩
  | advanceTick wheel =>
      rw [LoggedStore.perform_eq, LoggedStore.perform_eq]
      exact restartable.sweepAll around.monotone started (fun turn => (around.within turn).2) lasts
  | flushRound => exact ⟨records, restartable.flushRound.later (started.trans finished)⟩

/-- A restart keeps the invariant, since the replay of the log gives every key what the
uninterrupted store holds.
-/
theorem restart {around : Surroundings}
    (restartable : Restartable around.start original store records)
    (roomy : around.Roomy) (lasts : original.LastsUntil around.finish)
    (totalMemory exponent : ℕ)
    : Restartable around.finish original (store.restart around totalMemory exponent)
        records := by
  have file : store.aof.shutdown.file = encodeLines (records.map ICommand.serialize) :=
    (AofLogger.file_shutdown restartable.ready).trans restartable.content
  have log : (store.restart around totalMemory exponent).aof
      = { file := store.aof.shutdown.file, running := true } :=
    ServerBuilder.aof_boot ..
  have order : around.start ≤ around.finish := (around.within 0).1.trans (around.within 0).2
  have restored (key : Bytes)
      : Restores False around.start (recordsOf key records) around.finish
          ((store.restart around totalMemory exponent).router.entry key) := by
    have loop := ServerBuilder.restores_boot around.monotone around.refusals totalMemory
      exponent restartable.wellFormed (around.within 0).1 key
    rw [← file] at loop
    exact .later (loop.of_roomy (by simpa using fun turn => roomy turn)) (around.within _).2
  exact {
    past := (restartable.later order).past
    originalReady := restartable.originalReady
    ready := by rw [log]; exact ⟨rfl, rfl, rfl⟩
    content := by rw [log, ← file]; simp [AofLogger.content, encodeLines]
    wellFormed := restartable.wellFormed
    words := by
      intro key value found
      have built := restored key
      cases own : recordsOf key records with
      | nil =>
          rw [own] at built
          exact absurd (built.eq_none.symm.trans found) (by simp)
      | cons record rest =>
          have named : record ∈ recordsOf key records := by simp [own]
          obtain ⟨member, same⟩ := List.mem_filter.mp named
          exact (restartable.wellFormed record member).key (by simpa using same)
    holds := fun key => restartable.replayable key around.finish _ (restored key) (lasts key)
    replayable := fun key => (restartable.replayable key).later order
  }

end Restartable

-----------------------------------------------------------------------------------------
-- Whole runs
-----------------------------------------------------------------------------------------

/-- A new server holds nothing, and its log is empty. -/
theorem restartable_empty (totalMemory exponent : ℕ) (now : Int)
    : Restartable now (.empty totalMemory exponent) (.empty totalMemory exponent) [] where
  past key value found := by simp [LoggedStore.empty] at found
  originalReady := ⟨rfl, rfl, rfl⟩
  ready := ⟨rfl, rfl, rfl⟩
  content := rfl
  wellFormed := by simp
  words key value found := by simp [LoggedStore.empty] at found
  holds key := by
    simp only [LoggedStore.empty, ShardRouter.entry_construct]
    rintro value ⟨⟩
  replayable key := by
    simp only [LoggedStore.empty, ShardRouter.entry_construct]
    exact .nil now

theorem NoneExpires.front {front back : List (Surroundings × Happening)} {store : LoggedStore}
    (lasting : NoneExpires (front ++ back) store)
    : NoneExpires front store := by
  intro first around happening rest whole
  exact lasting first around happening (rest ++ back) (by simp [whole])

/-- In a run in which nothing expires, all that the store holds before a happening lasts
until its finish.
-/
theorem NoneExpires.lastsUntil {run : List (Surroundings × Happening)} {store : LoggedStore}
    (lasting : NoneExpires run store) {front back : List (Surroundings × Happening)}
    {around : Surroundings} {happening : Happening}
    (whole : run = front ++ (around, happening) :: back)
    : (store.performAll (uninterrupted front)).LastsUntil around.finish := by
  exact .of_fresh fun key value found kept positive =>
    lasting front around happening back whole key value found kept positive

/-- The invariant holds after every run, by induction on the run from its end. -/
theorem restartable_of_run (totalMemory exponent : ℕ) {run : List (Surroundings × Happening)}
    (ordered : InOrder run) (roomy : ∀ happening ∈ run, happening.1.Roomy)
    (lasting : NoneExpires run (.empty totalMemory exponent)) {now : Int}
    (done : ∀ happening ∈ run, happening.1.finish ≤ now)
    : ∃ records,
        Restartable now
          ((LoggedStore.empty totalMemory exponent).performAll (uninterrupted run))
          ((LoggedStore.empty totalMemory exponent).undergoAll run) records := by
  induction run using List.reverseRecOn generalizing now with
  | nil => exact ⟨[], restartable_empty totalMemory exponent now⟩
  | append_singleton front last ih =>
      obtain ⟨around, happening⟩ := last
      obtain ⟨sorted, -, before⟩ := List.pairwise_append.mp ordered
      obtain ⟨others, here⟩ := List.forall_mem_append.mp roomy
      have finished := done (around, happening) (by simp)
      have lasts := lasting.lastsUntil rfl
      obtain ⟨records, restartable⟩ := ih sorted others
        lasting.front
        (fun happening member => before happening member _ (List.mem_singleton_self _))
      cases happening with
      | event event =>
          obtain ⟨records, performed⟩ := restartable.perform (here _ (by simp)) lasts event
          refine ⟨records, ?_⟩
          simpa [uninterrupted, LoggedStore.performAll, LoggedStore.undergoAll,
            LoggedStore.undergo] using
            performed.later finished
      | restart totalMemory exponent =>
          refine ⟨records, ?_⟩
          have restarted :=
            restartable.restart (here _ (by simp)) lasts totalMemory exponent
          simpa [uninterrupted, LoggedStore.performAll, LoggedStore.undergoAll,
            LoggedStore.undergo] using
            restarted.later finished

/-- After the last restart of a run every key has the live value and the time to live that it
had just before it.
-/
theorem liveValue_restart (totalMemory exponent : ℕ) (run : List (Surroundings × Happening))
    (around : Surroundings) (totalMemory' exponent' : ℕ)
    (ordered : InOrder (run ++ [(around, .restart totalMemory' exponent')]))
    (roomy
      : ∀ happening ∈ run ++ [(around, .restart totalMemory' exponent')], happening.1.Roomy)
    (lasting
      : NoneExpires (run ++ [(around, .restart totalMemory' exponent')])
          (.empty totalMemory exponent))
    (key : Bytes)
    : let store := (LoggedStore.empty totalMemory exponent).undergoAll run
      (store.restart around totalMemory' exponent').liveValue around.finish key
        = store.liveValue around.start key := by
  obtain ⟨sorted, -, before⟩ := List.pairwise_append.mp ordered
  obtain ⟨others, here⟩ := List.forall_mem_append.mp roomy
  have lasts := lasting.lastsUntil rfl
  obtain ⟨records, restartable⟩ := restartable_of_run totalMemory exponent sorted others
    lasting.front
    (fun happening member => before happening member _ (List.mem_singleton_self _))
  have restarted := restartable.restart (here _ (by simp)) lasts totalMemory' exponent'
  have order : around.start ≤ around.finish := (around.within 0).1.trans (around.within 0).2
  unfold LoggedStore.liveValue
  exact ((restarted.holds key).liveValue (lasts key)).trans
    ((restartable.holds key).liveValue ((lasts key).before order)).symm

/-- A list, pushed to at one second and kept over a restart at two. -/
def pushedOnce : List (Surroundings × Happening) :=
  [(.instant 1000000000, .event (.request (ascii "LPUSH k x")))]

theorem liveValue_restart_pushed
    : let store := (LoggedStore.empty 1024 0).undergoAll pushedOnce
      (store.restart (.instant 2000000000) 1024 0).liveValue 2000000000 (ascii "k")
        = store.liveValue 2000000000 (ascii "k") := by
  refine liveValue_restart 1024 0 pushedOnce (.instant 2000000000) 1024 0 ?_ ?_ ?_ (ascii "k")
  · simp [InOrder, pushedOnce, Surroundings.instant]
  · simp [pushedOnce, Surroundings.instant, Surroundings.Roomy]
  · intro front around happening back whole key value found kept positive
    rcases front with _ | ⟨first, _ | ⟨second, rest⟩⟩
    · simp [uninterrupted, LoggedStore.performAll, LoggedStore.empty] at found
    · obtain ⟨rfl, rfl⟩ : first = (.instant 1000000000, .event (.request (ascii "LPUSH k x")))
          ∧ around = .instant 2000000000 := by
        simp_all [pushedOnce]
      have pushed := (ICommand.lpush (ascii "k") (ascii "x") 86400).realizes
        (ShardRouter.construct 1024 0) (AofLogger.start {}) 1000000000
      have stored := (pushed.entry key).symm.trans found
      simp [ICommand.effect, ICommand.entryIn, ICommand.key?] at stored
      obtain ⟨-, rfl⟩ := stored
      decide
    · simp [pushedOnce] at whole

end InMemoryDB
