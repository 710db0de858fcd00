import InMemoryDB.Core.Sharding
import InMemoryDB.Persistence.LogOrder

/-! What the sweeper removes, whatever the other threads do between its turns; and what it never
gets to see.
-/

namespace InMemoryDB

/-- What is dead stays dead, so looking at an entry in between does not change what is left. -/
theorem liveEntry_liveEntry {now later : Int} (order : now ≤ later)
    (entry : Option CacheAlignedValue)
    : liveEntry later (liveEntry now entry) = liveEntry later entry := by
  cases entry with
  | none => rfl
  | some value =>
      rw [liveEntry_some]
      split
      · rfl
      · rename_i dead
        rw [liveEntry_none, liveEntry_some, if_neg]
        intro live
        simp only [CacheAlignedValue.isLive, Bool.and_eq_true, Bool.not_eq_true'] at dead live
        refine dead ⟨live.1, ?_⟩
        by_contra expired
        have gone := CacheAlignedValue.isExpired_mono order (by simpa using expired)
        exact absurd (gone.symm.trans live.2) (by decide)

/-- All that an eviction of a key may do: nobody sees a difference from then on, only a dead
entry of this key goes, and nothing else is touched.
-/
structure ShardRouter.Evicts (now : Int) (key : Bytes) (before after : ShardRouter) : Prop where
  live
    : ∀ other later,
        now ≤ later → liveEntry later (after.entry other) = liveEntry later (before.entry other)
  dead
    : ∀ value,
        before.entry key = some value
        → after.entry key ≠ some value
        → after.entry key = none ∧ (value.tombstoned = true ∨ value.isExpired now = true)
  frame : before.ChangedAt (some key = some ·) after
  processed : ∀ value, after.entry key = some value → value.isLive now = true

theorem ShardRouter.evicts_evictExpired (router : ShardRouter) (now : Int) (key : Bytes)
    : router.Evicts now key (router.evictExpired now key).2 := by
  have left := router.entry_evictExpired now key key
  rw [if_pos rfl] at left
  constructor
  case live =>
    intro other later order
    rw [entry_evictExpired]
    split
    · rename_i same
      rw [same, liveEntry_liveEntry order]
    · rfl
  case dead =>
    intro value found gone
    rw [left, found, liveEntry_some] at gone ⊢
    split at gone
    · exact absurd rfl gone
    · rename_i dead
      rw [if_neg dead, ← Bool.or_eq_true, CacheAlignedValue.not_isLive, Bool.not_eq_true']
      exact ⟨rfl, by simpa using dead⟩
  case frame => exact router.changedAt_evictExpired now key
  case processed =>
    intro value found
    rw [left] at found
    exact (Option.filter_eq_some_iff.mp found).2

namespace ConcurrentStore

-----------------------------------------------------------------------------------------
-- Removals and records of a run
-----------------------------------------------------------------------------------------

/-- The key whose entry the next turn of the sweeper removes, if it removes one. -/
def removedKey (now : Int) (store : ConcurrentStore) : Option Bytes :=
  match store.expired with
  | [] => none
  | key :: _ =>
      if (store.router.entry key).isSome
          && ((store.router.evictExpired now key).2.entry key).isNone then
        some key
      else none

/-- The keys whose entries the sweeper removes in a run. -/
def removals (steps : List (ConcurrentStore × Turn)) : List Bytes :=
  steps.filterMap fun entry =>
    match entry.2 with
    | .sweep now => entry.1.removedKey now
    | _ => none

/-- The records that the threads give to the log in a run. -/
def records (steps : List (ConcurrentStore × Turn)) : List (Thread × ICommand) :=
  steps.filterMap fun entry =>
    match entry.2 with
    | .append thread =>
        (entry.1.pending.find? fun record => record.thread = thread).map fun record =>
          (thread, record.command)
    | _ => none

theorem records_append_steps (front back : List (ConcurrentStore × Turn))
    : records (front ++ back) = records front ++ records back :=
  List.filterMap_append

theorem removals_append_steps (front back : List (ConcurrentStore × Turn))
    : removals (front ++ back) = removals front ++ removals back :=
  List.filterMap_append

/-- The records that threads still hold. -/
def heldRecords (store : ConcurrentStore) : List (Thread × ICommand) :=
  store.pending.map fun record => (record.thread, record.command)

/-- The sweeper's removal is the outcome that its section reports. -/
theorem removedKey_eq {store : ConcurrentStore} {key : Bytes} {rest : List Bytes}
    (next : store.expired = key :: rest) (now : Int)
    : store.removedKey now
      = if (store.router.evictExpired now key).1 then some key else none := by
  have left := store.router.entry_evictExpired now key key
  rw [if_pos rfl] at left
  simp only [removedKey, next, left, ShardRouter.evictExpired_fst]
  cases store.router.entry key with
  | none => rfl
  | some value => cases live : value.isLive now <;> simp [liveEntry_some, live]

/-- A turn that appends gives the log the first record that its thread holds. -/
theorem records_append {store : ConcurrentStore} {thread : Thread}
    {front back : List PendingRecord} {record : PendingRecord}
    (holds : store.pending = front ++ record :: back) (own : record.thread = thread)
    (others : ∀ other ∈ front, other.thread ≠ thread)
    : records [(store, .append thread)] = [(thread, record.command)] := by
  have first : store.pending.find? (fun record => record.thread = thread) = some record := by
    rw [holds, List.find?_append, List.find?_eq_none.mpr (by simpa using others)]
    simp [own]
  simp only [records, List.filterMap_cons, List.filterMap_nil, first, Option.map_some]

/-- What a turn adds to the records given and held, as far as they are the sweeper's, is what
it removes; by cases on the turn.
-/
theorem heldRecords_step {store next : ConcurrentStore} {turn : Turn}
    (taken : store.step turn = some next)
    : ofClient .sweeper (records [(store, turn)] ++ next.heldRecords)
      = ofClient .sweeper store.heldRecords ++ (removals [(store, turn)]).map .del := by
  cases turn with
  | execute worker refusals now command =>
      cases takes_of_step taken with
      | execute =>
          simp only [records, removals, List.filterMap_cons, List.filterMap_nil, List.nil_append,
            List.map_nil, List.append_nil, heldRecords, update]
          split
          · rw [List.map_append, ofClient_append]
            exact List.append_nil _
          · rfl
  | advanceTick wheel =>
      cases takes_of_step taken with
      | advanceTick => exact (List.append_nil _).symm
  | flushRound =>
      cases takes_of_step taken with
      | flushRound => exact (List.append_nil _).symm
  | sweep now =>
      obtain ⟨key, rest, more, -, rfl⟩ := sweep_of_step taken
      simp only [records, removals, List.filterMap_cons, List.filterMap_nil, List.nil_append,
        heldRecords, update, removedKey_eq more]
      split
      · rw [List.map_append, ofClient_append]
        rfl
      · exact (List.append_nil _).symm
  | append thread =>
      obtain ⟨front, record, back, holds, own, others, rfl⟩ := append_of_step taken
      have silent : removals [(store, .append thread)] = [] := rfl
      rw [records_append holds own others, silent]
      simp only [heldRecords, holds, List.map_append, List.map_cons, List.map_nil,
        List.append_nil, ofClient_append, own]
      by_cases sweeps : thread = .sweeper
      · -- no record of the sweeper is in front of its first one
        have none : ofClient Thread.sweeper
            (front.map fun record => (record.thread, record.command)) = [] := by
          apply ofClient_eq_nil
          intro entry member
          obtain ⟨other, among, rfl⟩ := List.mem_map.mp member
          exact sweeps ▸ others other among
        rw [none, sweeps, ofClient_cons_self, ofClient_cons_self]
        rfl
      · rw [ofClient_cons_of_ne sweeps, ofClient_cons_of_ne sweeps]
        rfl

/-- In whole runs the sweeper gives the log one `DEL` for each entry that it removes, in this
order, and no other record; the last one may still be on its way. By induction on the run.
-/
theorem sweeper_records {start final : ConcurrentStore}
    {steps : List (ConcurrentStore × Turn)} (run : TransitionSystem.Run step start steps final)
    : ofClient .sweeper (records steps ++ final.heldRecords)
      = ofClient .sweeper start.heldRecords ++ (removals steps).map .del := by
  induction run with
  | nil => exact (List.append_nil _).symm
  | @snoc steps middle turn final _ taken ih =>
      have last := heldRecords_step taken
      rw [records_append_steps, removals_append_steps, List.append_assoc, ofClient_append, last,
        ← List.append_assoc, ← ofClient_append, ih, List.map_append, List.append_assoc]

/-- A turn changes the log by the records that it gives to it. -/
theorem content_step {store next : ConcurrentStore} {turn : Turn} (ready : store.aof.Ready)
    (taken : store.step turn = some next)
    : next.aof.Ready
      ∧ next.aof.content
        = store.aof.content
          ++ encodeLines ((records [(store, turn)]).map fun record => record.2.serialize) := by
  cases turn with
  | execute | advanceTick | sweep =>
      cases takes_of_step taken
      exact ⟨ready, (List.append_nil _).symm⟩
  | append thread =>
      obtain ⟨front, record, back, holds, own, others, rfl⟩ := append_of_step taken
      rw [records_append holds own others]
      exact ⟨ready.log _, AofLogger.content_log ready _⟩
  | flushRound =>
      cases takes_of_step taken
      exact ⟨ready.flushRound,
        (AofLogger.content_flushRound ready).trans (List.append_nil _).symm⟩

/-- After a run the log is what it was and the records that were given to it, by induction on
the run.
-/
theorem content_of_run {start final : ConcurrentStore} {steps : List (ConcurrentStore × Turn)}
    (run : TransitionSystem.Run step start steps final) (ready : start.aof.Ready)
    : final.aof.Ready
      ∧ final.aof.content
        = start.aof.content
          ++ encodeLines ((records steps).map fun record => record.2.serialize) := by
  induction run with
  | nil => exact ⟨ready, (List.append_nil _).symm⟩
  | @snoc steps middle turn final _ taken ih =>
      obtain ⟨before, content⟩ := ih
      obtain ⟨after, last⟩ := content_step before taken
      refine ⟨after, ?_⟩
      rw [last, content, List.append_assoc, ← AofLogger.encodeLines_append, ← List.map_append,
        ← records_append_steps]

-----------------------------------------------------------------------------------------
-- The sweeper among the others
-----------------------------------------------------------------------------------------

/-- From any store and any bucket on, and whatever other threads do between the turns of the
sweeper: each of its turns is an eviction of the next key that nobody can notice then or later,
the sweeper gives the log one `DEL` for each entry that it removes and nothing else, and the
log takes what it is given.
-/
theorem sweeps_keep_live {start final : ConcurrentStore}
    {steps : List (ConcurrentStore × Turn)} (run : TransitionSystem.Run step start steps final)
    : (∀ before now,
          (before, .sweep now) ∈ steps
          → ∃ key rest after,
              before.expired = key :: rest
              ∧ before.step (.sweep now) = some after
              ∧ before.router.Evicts now key after.router)
      ∧ ofClient .sweeper (records steps ++ final.heldRecords)
        = ofClient .sweeper start.heldRecords ++ (removals steps).map .del
      ∧ (start.aof.Ready
        → final.aof.content
          = start.aof.content
            ++ encodeLines ((records steps).map fun record => record.2.serialize)) := by
  refine ⟨?_, sweeper_records run, fun ready => (content_of_run run ready).2⟩
  intro before now member
  obtain ⟨-, -, after, -, -, taken, -⟩ := run.split member
  obtain ⟨key, rest, more, -, rfl⟩ := sweep_of_step taken
  exact ⟨key, rest, _, more, taken, before.router.evicts_evictExpired now key⟩

/-- A key in the bucket is deleted and set again before the sweeper comes to it, and another
one is deleted and stays so.
-/
def setAgain : List Turn :=
  [.execute 0 .none 0 (.set (ascii "k") (ascii "a") 10), .append (.worker 0),
    .execute 0 .none 0 (.set (ascii "d") (ascii "a") 10), .append (.worker 0),
    .execute 0 .none 0 (.del (ascii "k")), .append (.worker 0),
    .execute 0 .none 0 (.del (ascii "d")), .append (.worker 0),
    .advanceTick { buckets := fun _ => [ascii "k", ascii "d"], startTime := 0 },
    .execute 0 .none 0 (.set (ascii "k") (ascii "b") 10), .append (.worker 0),
    .sweep 0, .sweep 0, .append .sweeper]

theorem sweeps_keep_live_setAgain
    : ∃ steps final,
        TransitionSystem.Run step (start 1024 0 0) steps final
        ∧ removals steps = [ascii "d"]
        ∧ ofClient .sweeper (records steps ++ final.heldRecords)
          = ofClient .sweeper (start 1024 0 0).heldRecords ++ (removals steps).map .del := by
  have traced : TransitionSystem.trace step (start 1024 0 0) setAgain = some _ := rfl
  have run := TransitionSystem.run_of_trace traced
  exact ⟨_, _, run, rfl, (sweeps_keep_live run).2.1⟩

end ConcurrentStore

-----------------------------------------------------------------------------------------
-- The server as it is wired
-----------------------------------------------------------------------------------------

/-- The store with its log and the timing wheel beside it. No command and no other part of the
program calls `schedule`, so a tick is all that ever happens to the wheel.
-/
structure WiredStore extends LoggedStore where
  wheel : TimingWheel
  clock : Int

/-- A command of a client, or a tick of the sweeper thread. -/
inductive WiredAction where
  | execute (refusals : Refusals) (now : Int) (command : ICommand)
  | advanceTick (around : Surroundings)

namespace WiredStore

/-- `build_and_run` on the log file that it finds; the wheel is made when the replay is over. -/
def start (clock : ℕ → Int) (refusals : ℕ → Refusals) (totalMemory exponent : ℕ)
    (file : Bytes) (now : Int)
    : WiredStore :=
  let (router, aof) := ServerBuilder.boot clock refusals totalMemory exponent file
  { router := router, aof := aof, wheel := { startTime := now }, clock := now }

/-- The clock of the server does not go back. -/
def step (store : WiredStore) : WiredAction → Option WiredStore
  | .execute refusals now command =>
      if store.clock ≤ now then
        let done := command.execute refusals now store.router store.aof
        some { store with router := done.router, aof := done.aof, clock := now }
      else none
  | .advanceTick around =>
      if store.clock ≤ around.start then
        let (wheel, router, aof) := store.wheel.advanceTick around.clock store.router store.aof
        some { router := router, aof := aof, wheel := wheel, clock := around.finish }
      else none

/-- The step executes a write of the key. -/
def Writes (key : Bytes) : WiredAction → Prop
  | .execute _ _ command => command.isWrite = true ∧ command.key? = some key
  | .advanceTick _ => False

/-- The wheel never has anything for the sweeper, so a tick leaves the store as it is. -/
def Unscheduled (store : WiredStore) : Prop := ∀ bucket, store.wheel.buckets bucket = []

theorem unscheduled_start (clock : ℕ → Int) (refusals : ℕ → Refusals)
    (totalMemory exponent : ℕ) (file : Bytes) (now : Int)
    : (start clock refusals totalMemory exponent file now).Unscheduled :=
  fun _ => rfl

/-- An empty wheel stays empty. -/
theorem Unscheduled.step {store next : WiredStore} {action : WiredAction}
    (unscheduled : store.Unscheduled) (taken : store.step action = some next)
    : next.Unscheduled := by
  cases action with
  | execute refusals now command =>
      simp only [WiredStore.step] at taken
      split at taken
      · obtain rfl := Option.some.inj taken
        exact unscheduled
      · cases taken
  | advanceTick around =>
      simp only [WiredStore.step] at taken
      split at taken
      · obtain rfl := Option.some.inj taken
        intro bucket
        simp only [TimingWheel.advanceTick, TimingWheel.takeBucket]
        split
        · rfl
        · exact unscheduled bucket
      · cases taken

/-- A step that is no write of a key leaves its entry. -/
theorem entry_step {store next : WiredStore} {action : WiredAction} {key : Bytes}
    (unscheduled : store.Unscheduled) (unwritten : ¬ Writes key action)
    (taken : store.step action = some next)
    : next.router.entry key = store.router.entry key := by
  cases action with
  | execute refusals now command =>
      simp only [WiredStore.step] at taken
      split at taken
      · obtain rfl := Option.some.inj taken
        rcases command.execute_none_or_refused refusals now store.router store.aof with
          same | ⟨-, refused⟩
        · dsimp only
          rw [same, (command.realizes store.router store.aof now).entry]
          split
          · rename_i own
            have reads : command.isWrite = false := by
              by_contra writes
              exact unwritten ⟨by simpa using writes, own⟩
            obtain ⟨reply, effect⟩ := command.effect_of_read reads now
              (command.entryIn store.router)
            rw [effect, ICommand.entryIn, own, Option.bind_some]
          · rfl
        · dsimp only
          rw [refused]
      · cases taken
  | advanceTick around =>
      simp only [WiredStore.step] at taken
      split at taken
      · obtain rfl := Option.some.inj taken
        simp only [TimingWheel.advanceTick, TimingWheel.takeBucket, unscheduled _]
        rfl
      · cases taken

/-- The wheel of the server is empty in every state that it reaches. -/
theorem unscheduled_of_run {store final : WiredStore} {steps : List (WiredStore × WiredAction)}
    (run : TransitionSystem.Run step store steps final) (unscheduled : store.Unscheduled)
    : final.Unscheduled := by
  induction run with
  | nil => exact unscheduled
  | snoc _ taken ih => exact ih.step taken

/-- A run without a write of a key leaves its entry, by induction on the run. -/
theorem entry_of_run {store final : WiredStore} {steps : List (WiredStore × WiredAction)}
    (run : TransitionSystem.Run step store steps final) (unscheduled : store.Unscheduled)
    {key : Bytes}
    (unwritten : TransitionSystem.Along (fun _ action => ¬ Writes key action) steps)
    : final.router.entry key = store.router.entry key := by
  induction run with
  | nil => rfl
  | snoc earlier taken ih =>
      obtain ⟨others, last⟩ := TransitionSystem.along_snoc.mp unwritten
      rw [entry_step (unscheduled_of_run earlier unscheduled) last taken]
      exact ih others

/-- However many ticks pass, an entry whose key is not written stays in the map. In particular
one that is dead all the time is never removed.
-/
theorem dead_entry_stays (clock : ℕ → Int) (refusals : ℕ → Refusals)
    (totalMemory exponent : ℕ) (file : Bytes) (now : Int) {before after : WiredStore}
    {earlier steps : List (WiredStore × WiredAction)}
    (reached
      : TransitionSystem.Run step (start clock refusals totalMemory exponent file now) earlier
          before)
    (run : TransitionSystem.Run step before steps after) {key : Bytes}
    {value : CacheAlignedValue} (found : before.router.entry key = some value)
    (unwritten : TransitionSystem.Along (fun _ action => ¬ Writes key action) steps)
    : after.router.entry key = some value := by
  have unscheduled :=
    unscheduled_of_run reached (unscheduled_start clock refusals totalMemory exponent file now)
  rw [entry_of_run run unscheduled unwritten, found]

/-- Ticks of the sweeper, a second apart, for as long as one likes. -/
theorem run_ticks (count : ℕ) (store : WiredStore)
    : ∃ steps final,
        TransitionSystem.Run step store steps final
        ∧ steps.length = count
        ∧ ∀ entry ∈ steps, ∃ around, entry.2 = .advanceTick around := by
  induction count with
  | zero => exact ⟨[], store, .nil, rfl, by simp⟩
  | succ count ih =>
      obtain ⟨steps, final, run, length, ticks⟩ := ih
      have advances : final.clock ≤ final.clock + nanosecondsPerSecond := by
        unfold nanosecondsPerSecond
        omega
      have taken
          : ∃ next,
              final.step (.advanceTick (.instant (final.clock + nanosecondsPerSecond)))
              = some next := by
        simp only [step, Surroundings.instant, advances, if_true]
        exact ⟨_, rfl⟩
      obtain ⟨next, taken⟩ := taken
      refine ⟨_, next, .snoc run taken, by simp [length], ?_⟩
      exact List.forall_mem_append.mpr ⟨ticks, List.forall_mem_singleton.mpr ⟨_, rfl⟩⟩

/-- Ticks write nothing. -/
theorem unwritten_of_ticks {steps : List (WiredStore × WiredAction)} (key : Bytes)
    (ticks : ∀ entry ∈ steps, ∃ around, entry.2 = WiredAction.advanceTick around)
    : TransitionSystem.Along (fun _ action => ¬ Writes key action) steps := by
  intro entry member written
  obtain ⟨around, tick⟩ := ticks entry member
  rw [tick] at written
  exact written

/-- The entry of a key that was set and deleted. -/
def deletedEntry : CacheAlignedValue :=
  { data := .string (ascii "v"), createdAt := 0, ttlSeconds := 10, tombstoned := true }

theorem run_setAndDelete
    : ∃ steps final,
        TransitionSystem.Run step (start (fun _ => 0) (fun _ => .none) 1024 0 [] 0) steps final
        ∧ final.router.entry (ascii "k") = some deletedEntry := by
  have traced
      : TransitionSystem.trace step (start (fun _ => 0) (fun _ => .none) 1024 0 [] 0)
          [.execute .none 0 (.set (ascii "k") (ascii "v") 10),
            .execute .none 0 (.del (ascii "k"))]
        = some _ := rfl
  exact ⟨_, _, TransitionSystem.run_of_trace traced, rfl⟩

/-- A deleted entry is still there after a whole turn of the wheel, in which its key was not
written and it was dead all the time.
-/
theorem dead_entry_stays_fails
    : ∃ earlier before steps after,
        TransitionSystem.Run step (start (fun _ => 0) (fun _ => .none) 1024 0 [] 0) earlier before
        ∧ TransitionSystem.Run step before steps after
        ∧ steps.length = wheelSize
        ∧ (∀ entry ∈ steps,
            (∃ around, entry.2 = .advanceTick around)
            ∧ entry.1.router.entry (ascii "k") = some deletedEntry)
        ∧ deletedEntry.tombstoned = true
        ∧ after.router.entry (ascii "k") = some deletedEntry := by
  obtain ⟨earlier, before, reached, found⟩ := run_setAndDelete
  have unscheduled := unscheduled_of_run reached
    (unscheduled_start (fun _ => 0) (fun _ => .none) 1024 0 [] 0)
  obtain ⟨steps, after, run, length, ticks⟩ := run_ticks wheelSize before
  have unwritten := unwritten_of_ticks (ascii "k") ticks
  refine ⟨earlier, before, steps, after, reached, run, length, ?_, rfl, ?_⟩
  · intro entry member
    refine ⟨ticks entry member, ?_⟩
    obtain ⟨front, back, next, rfl, passed, -, -⟩ := run.split member
    rw [entry_of_run passed unscheduled, found]
    exact fun other among => unwritten other (List.mem_append_left _ among)
  · rw [entry_of_run run unscheduled unwritten, found]

/-- One tick after the deletion. -/
theorem dead_entry_stays_tick
    : ∃ before steps after,
        TransitionSystem.Run step before steps after
        ∧ steps.length = 1
        ∧ before.router.entry (ascii "k") = some deletedEntry
        ∧ after.router.entry (ascii "k") = some deletedEntry := by
  obtain ⟨earlier, before, reached, found⟩ := run_setAndDelete
  obtain ⟨steps, after, run, length, ticks⟩ := run_ticks 1 before
  exact ⟨before, steps, after, run, length, found,
    dead_entry_stays (fun _ => 0) (fun _ => .none) 1024 0 [] 0 reached run found
      (unwritten_of_ticks (ascii "k") ticks)⟩

end WiredStore

end InMemoryDB
