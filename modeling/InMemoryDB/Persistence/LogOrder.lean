import InMemoryDB.Library.Runs
import InMemoryDB.Persistence.Reconstruction

/-! Workers and the sweeper at the same time: the order in which their records reach the log,
and what a replay of the finished log gives back.
-/

namespace InMemoryDB

-----------------------------------------------------------------------------------------
-- The two sections of a write
-----------------------------------------------------------------------------------------

namespace ICommand

/-- What a command does under the lock of its shard, and whether it then logs itself. -/
def lockedSection (refusals : Refusals) (now : Int) (command : ICommand) (router : ShardRouter)
    : ShardRouter × Bool :=
  match command with
  | .set key value ttl =>
      let (stored, router) := router.set refusals now key value ttl
      (router, stored)
  | .del key =>
      let (removed, router) := router.del key
      (router, removed)
  | .lpush key value ttl =>
      let ((_, logged), shard) :=
        (router.shardForKey key).guardedWrite refusals
          (LPushCommand.tryPush refusals now key value ttl)
      (router.putShard key shard, logged)
  | .hset key field value ttl =>
      let ((_, logged), shard) :=
        (router.shardForKey key).guardedWrite refusals
          (HSetCommand.trySet refusals now key field value ttl)
      (router.putShard key shard, logged)
  | .get _ | .exists _ | .ping | .lrange .. | .hget .. => (router, false)

/-- `LPUSH` and `HSET` log while they hold the lock; `SET` and `DEL` have released it. -/
def logsUnderLock : ICommand → Bool
  | .lpush .. | .hset .. => true
  | _ => false

/-- An execution is the section under the lock and the append that may follow it, by cases on
the command.
-/
theorem execute_eq_lockedSection (refusals : Refusals) (now : Int) (command : ICommand)
    (router : ShardRouter) (aof : AofLogger)
    : (command.execute refusals now router aof).router
        = (command.lockedSection refusals now router).1
      ∧ (command.execute refusals now router aof).aof
        = if (command.lockedSection refusals now router).2 then
            aof.logUnlessReplaying command.serialize
          else aof := by
  cases command with
  | set key value ttl =>
      simp only [execute, SetCommand.execute, lockedSection]
      split <;> simp_all
  | get key =>
      simp only [execute, GetCommand.execute, lockedSection]
      split <;> simp
  | lrange key start stop =>
      simp only [execute, LRangeCommand.execute, lockedSection]
      split
      · simp
      · split <;> simp
  | hget key field =>
      simp only [execute, HGetCommand.execute, lockedSection]
      split
      · simp
      · split
        · split <;> simp
        · simp
  | del | «exists» | ping | lpush | hset => exact ⟨rfl, rfl⟩

/-- With memory for everything a command logs itself when its effect says so, as can be seen
from the log that it leaves behind.
-/
theorem lockedSection_none (command : ICommand) (now : Int) (router : ShardRouter)
    : (command.lockedSection .none now router).2
      = (command.effect now (command.entryIn router)).logged := by
  have logged := (command.realizes router (AofLogger.start {}) now).aof
  have appended := (command.execute_eq_lockedSection .none now router (AofLogger.start {})).2
  have adds : (AofLogger.start {}).logUnlessReplaying command.serialize
      ≠ AofLogger.start {} := by
    simp [AofLogger.logUnlessReplaying, AofLogger.log, AofLogger.start]
  rw [appended] at logged
  split at logged <;> split at logged
  · simp_all only
  · exact absurd logged adds
  · exact absurd logged.symm adds
  · simp_all only [Bool.not_eq_true]

/-- A command does and replies what it would with memory for everything, or it is refused as a
whole. By cases on the command.
-/
theorem lockedSection_none_or_refused (refusals : Refusals) (now : Int) (command : ICommand)
    (router : ShardRouter) (aof : AofLogger)
    : (command.lockedSection refusals now router = command.lockedSection .none now router
        ∧ command.execute refusals now router aof = command.execute .none now router aof)
      ∨ (command.lockedSection refusals now router = (router, false)
        ∧ command.asksMemory = true
        ∧ command.execute refusals now router aof = ⟨oomReply, router, aof⟩) := by
  cases command with
  | set key value ttl =>
      simp only [lockedSection, execute, SetCommand.execute]
      rcases router.set_none_or_refused refusals now key value ttl with same | refused
      · exact .inl (by simp only [same, and_self])
      · exact .inr (by simp [refused, asksMemory])
  | lpush key value ttl =>
      simp only [lockedSection, execute, LPushCommand.execute]
      rcases (router.shardForKey key).guardedWrite_none_or_refused refusals
        (LPushCommand.tryPush_allOrNothing refusals now key value ttl) with same | refused
      · exact .inl (by simp only [same, and_self])
      · exact .inr (by simp [refused, asksMemory])
  | hset key field value ttl =>
      simp only [lockedSection, execute, HSetCommand.execute]
      rcases (router.shardForKey key).guardedWrite_none_or_refused refusals
        (HSetCommand.trySet_allOrNothing refusals now key field value ttl) with same | refused
      · exact .inl (by simp only [same, and_self])
      · exact .inr (by simp [refused, asksMemory])
  | get | del | «exists» | ping | lrange | hget => exact .inl ⟨rfl, rfl⟩

end ICommand

-----------------------------------------------------------------------------------------
-- The concurrent system
-----------------------------------------------------------------------------------------

inductive Thread where
  | worker (index : ℕ)
  | sweeper
  deriving DecidableEq

/-- A record between the update that asks for it and its append. -/
structure PendingRecord where
  thread : Thread
  command : ICommand
  underLock : Bool

/-- The store and its log with what the threads hold between two sections: the keys that the
running tick has still to sweep, and the records on their way, in the order of their updates.
The last two fields are for proofs: the records of all updates, and those in the log.
-/
structure ConcurrentStore extends LoggedStore where
  clock : Int
  expired : List Bytes := []
  pending : List PendingRecord := []
  updates : List ICommand := []
  appended : List ICommand := []

/-- A section of one thread. The flush thread takes its turn with a whole round, as nobody
else touches the buffer that it writes.
-/
inductive Turn where
  | execute (worker : ℕ) (refusals : Refusals) (now : Int) (command : ICommand)
  | advanceTick (wheel : TimingWheel)
  | sweep (now : Int)
  | append (thread : Thread)
  | flushRound

namespace ConcurrentStore

/-- A server that has just been started for the first time. -/
def start (totalMemory exponent : ℕ) (clock : Int) : ConcurrentStore :=
  { LoggedStore.empty totalMemory exponent with clock := clock }

/-- The thread has no record to append. -/
def idle (thread : Thread) (store : ConcurrentStore) : Bool :=
  store.pending.all fun record => record.thread ≠ thread

/-- Another thread is inside the lock of the key's shard. -/
def locked (store : ConcurrentStore) (key : Bytes) : Bool :=
  store.pending.any fun record =>
    record.underLock
      && record.command.key?.any fun other =>
          store.router.shardIndex other = store.router.shardIndex key

/-- The store after an update under the lock of a shard. A thread that has to log it holds
the record until its append.
-/
def update (thread : Thread) (now : Int) (record : ICommand) (underLock : Bool)
    (outcome : ShardRouter × Bool) (store : ConcurrentStore)
    : ConcurrentStore :=
  { store with
    router := outcome.1
    clock := now
    pending := if outcome.2 then store.pending ++ [⟨thread, record, underLock⟩] else store.pending
    updates := if outcome.2 then store.updates ++ [record] else store.updates }

/-- One section of one thread; its clock reading is not before the last one. -/
def step (store : ConcurrentStore) : Turn → Option ConcurrentStore
  | .execute worker refusals now command =>
      if store.clock ≤ now ∧ command.WellFormed ∧ store.idle (.worker worker)
          ∧ command.key?.any store.locked = false then
        some (store.update (.worker worker) now command command.logsUnderLock
          (command.lockedSection refusals now store.router))
      else none
  | .advanceTick wheel =>
      if store.expired = [] ∧ store.idle .sweeper then
        some { store with expired := wheel.takeBucket.1 }
      else none
  | .sweep now =>
      match store.expired with
      | [] => none
      | key :: rest =>
          if store.clock ≤ now ∧ store.idle .sweeper ∧ store.locked key = false then
            let (evicted, router) := store.router.evictExpired now key
            some
              { store.update .sweeper now (.del key) false (router, evicted) with
                expired := rest }
          else none
  | .append thread =>
      (store.pending.find? fun record => record.thread = thread).map fun record =>
        { store with
          aof := store.aof.logUnlessReplaying record.command.serialize
          pending := store.pending.eraseP fun record => record.thread = thread
          appended := store.appended ++ [record.command] }
  | .flushRound => some { store with aof := store.aof.flushRound }

/-- Whoever appends the record of an update, no thread still holds the record of an earlier
update of the same key.
-/
def InTurn (store : ConcurrentStore) : Turn → Prop
  | .append thread =>
      ∀ front record back,
        store.pending = front ++ record :: back
        → record.thread = thread
        → ∀ older ∈ front, older.command.key? ≠ record.command.key?
  | _ => True

/-- No value with a positive time to live is expired by a limit. -/
def Fresh (limit : Int) (store : ConcurrentStore) : Prop :=
  ∀ key value,
    store.router.entry key = some value
    → value.tombstoned = false
    → 0 < value.ttlSeconds
    → value.isExpired limit = false

/-- No positive time to live runs out before the section. -/
def NoneExpires (store : ConcurrentStore) : Turn → Prop
  | .execute _ _ now _ | .sweep now => store.Fresh now
  | .advanceTick _ | .append _ | .flushRound => True

/-- All that a section can do: an update of the store by a worker or by the sweeper, an
append of a record that the thread holds, or nothing to either.
-/
inductive Takes (store : ConcurrentStore) : Turn → ConcurrentStore → Prop
  | execute {worker refusals now command} (advances : store.clock ≤ now)
    (wellFormed : command.WellFormed)
    : Takes store (.execute worker refusals now command)
        (store.update (.worker worker) now command command.logsUnderLock
          (command.lockedSection refusals now store.router))
  | advanceTick {wheel} (keys : List Bytes)
    : Takes store (.advanceTick wheel) { store with expired := keys }
  | sweep {now key} (rest : List Bytes) (advances : store.clock ≤ now)
    : Takes store (.sweep now)
        { store.update .sweeper now (.del key) false
            ((store.router.evictExpired now key).2, (store.router.evictExpired now key).1) with
          expired := rest }
  | append {thread front record back} (holds : store.pending = front ++ record :: back)
    (own : record.thread = thread)
    : Takes store (.append thread)
        { store with
          aof := store.aof.logUnlessReplaying record.command.serialize
          pending := front ++ back
          appended := store.appended ++ [record.command] }
  | flushRound : Takes store .flushRound { store with aof := store.aof.flushRound }

/-- A thread appends the first record that it holds. -/
theorem append_of_step {store next : ConcurrentStore} {thread : Thread}
    (taken : store.step (.append thread) = some next)
    : ∃ front record back,
        store.pending = front ++ record :: back
        ∧ record.thread = thread
        ∧ (∀ other ∈ front, other.thread ≠ thread)
        ∧ next
          = { store with
              aof := store.aof.logUnlessReplaying record.command.serialize
              pending := front ++ back
              appended := store.appended ++ [record.command] } := by
  simp only [step, Option.map_eq_some_iff] at taken
  obtain ⟨record, found, rfl⟩ := taken
  obtain ⟨own, front, back, holds, others⟩ := List.find?_eq_some_iff_append.mp found
  have left : store.pending.eraseP (fun record => record.thread = thread) = front ++ back := by
    rw [holds, List.eraseP_append_right _ fun other member => by simpa using others other member]
    simp only [List.eraseP_cons, own, cond_true]
  rw [left]
  exact ⟨front, record, back, holds, by simpa using own,
    fun other member => by simpa using others other member, rfl⟩

/-- The sweeper takes the next key of its tick. -/
theorem sweep_of_step {store next : ConcurrentStore} {now : Int}
    (taken : store.step (.sweep now) = some next)
    : ∃ key rest,
        store.expired = key :: rest
        ∧ store.clock ≤ now
        ∧ next
          = { store.update .sweeper now (.del key) false
                ((store.router.evictExpired now key).2, (store.router.evictExpired now key).1) with
              expired := rest } := by
  simp only [step] at taken
  split at taken
  · cases taken
  · rename_i key rest more
    split at taken
    · rename_i guards
      exact ⟨key, rest, more, guards.1, (Option.some.inj taken).symm⟩
    · cases taken

/-- A step is one of these, by cases on the section. -/
theorem takes_of_step {store next : ConcurrentStore} {turn : Turn}
    (taken : store.step turn = some next)
    : store.Takes turn next := by
  cases turn with
  | execute worker refusals now command =>
      simp only [step] at taken
      split at taken
      · rename_i guards
        obtain rfl := Option.some.inj taken
        exact .execute guards.1 guards.2.1
      · cases taken
  | advanceTick wheel =>
      simp only [step] at taken
      split at taken
      · obtain rfl := Option.some.inj taken
        exact .advanceTick _
      · cases taken
  | sweep now =>
      obtain ⟨key, rest, -, advances, rfl⟩ := sweep_of_step taken
      exact .sweep rest advances
  | append thread =>
      obtain ⟨front, record, back, holds, own, -, rfl⟩ := append_of_step taken
      exact .append holds own
  | flushRound =>
      obtain rfl := Option.some.inj taken
      exact .flushRound

-----------------------------------------------------------------------------------------
-- The order of the records of a key
-----------------------------------------------------------------------------------------

/-- The log and after it the pending records have the records of every key in the order of
its updates.
-/
structure Ordered (store : ConcurrentStore) : Prop where
  ready : store.aof.Ready
  content : store.aof.content = encodeLines (store.appended.map ICommand.serialize)
  among
    : ∀ record ∈ store.appended ++ store.pending.map PendingRecord.command,
        record ∈ store.updates
  order
    : ∀ key,
        recordsOf key (store.appended ++ store.pending.map PendingRecord.command)
          = recordsOf key store.updates

namespace Ordered

variable {store next : ConcurrentStore}

theorem start (totalMemory exponent : ℕ) (clock : Int)
    : (start totalMemory exponent clock).Ordered where
  ready := ⟨rfl, rfl, rfl⟩
  content := rfl
  among := by simp [ConcurrentStore.start]
  order _ := rfl

/-- An update puts its record at the end of both. -/
theorem update (ordered : store.Ordered) (thread : Thread) (now : Int) (record : ICommand)
    (underLock : Bool) (outcome : ShardRouter × Bool)
    : (store.update thread now record underLock outcome).Ordered := by
  obtain ⟨router, logs⟩ := outcome
  cases logs with
  | false => exact { ordered with }
  | true =>
      refine { ready := ordered.ready, content := ordered.content, among := ?_, order := ?_ }
      · intro other member
        simp only [ConcurrentStore.update, if_true, List.map_append, ← List.append_assoc]
          at member ⊢
        rcases List.mem_append.mp member with earlier | last
        · exact List.mem_append_left _ (ordered.among other earlier)
        · exact List.mem_append_right _ last
      · intro key
        simp only [ConcurrentStore.update, if_true, List.map_append, ← List.append_assoc]
        rw [recordsOf_append, ordered.order, ← recordsOf_append]
        rfl

/-- A record that is appended in its turn goes before the pending ones of its key. -/
theorem append (ordered : store.Ordered) {front back : List PendingRecord}
    {record : PendingRecord} (holds : store.pending = front ++ record :: back)
    (first : ∀ older ∈ front, older.command.key? ≠ record.command.key?)
    : Ordered
        { store with
          aof := store.aof.logUnlessReplaying record.command.serialize
          pending := front ++ back
          appended := store.appended ++ [record.command] } := by
  constructor
  case ready => exact ordered.ready.log _
  case content =>
    rw [AofLogger.content_log ordered.ready, ordered.content, List.map_append,
      AofLogger.encodeLines_append]
    rfl
  case among =>
    intro other member
    apply ordered.among other
    simp only [holds, List.map_append, List.map_cons, List.mem_append, List.mem_cons,
      List.not_mem_nil, or_false] at member ⊢
    tauto
  case order =>
    intro key
    have whole := ordered.order key
    simp only [holds, List.map_append, List.map_cons, recordsOf_append] at whole ⊢
    rw [← whole, List.append_assoc]
    refine congrArg _ ?_
    by_cases own : record.command.key? = some key
    · have none : recordsOf key (front.map PendingRecord.command) = [] := by
        apply List.filter_eq_nil_iff.mpr
        intro other member
        obtain ⟨older, among, rfl⟩ := List.mem_map.mp member
        simpa [own] using first older among
      rw [none, List.nil_append, List.nil_append]
      simp [recordsOf, own]
    · simp [recordsOf, own]

/-- A section keeps the order, if an append comes in its turn. -/
theorem step {turn : Turn} (ordered : store.Ordered) (inTurn : store.InTurn turn)
    (taken : store.step turn = some next)
    : next.Ordered := by
  cases takes_of_step taken with
  | execute => exact ordered.update ..
  | advanceTick keys => exact { ordered with }
  | @sweep now key rest =>
      have updated := ordered.update .sweeper now (.del key) false
        ((store.router.evictExpired now key).2, (store.router.evictExpired now key).1)
      exact { updated with }
  | append holds own => exact ordered.append holds (inTurn _ _ _ holds own)
  | flushRound =>
      exact { ordered with
        ready := ordered.ready.flushRound
        content := (AofLogger.content_flushRound ordered.ready).trans ordered.content }

end Ordered

-----------------------------------------------------------------------------------------
-- The updates one after the other
-----------------------------------------------------------------------------------------

/-- The store is that of a server which does every access as a whole, and whose log has the
records of all updates.
-/
def Linearized (store : ConcurrentStore) : Prop :=
  ∃ whole : LoggedStore,
    whole.router = store.router ∧ Restartable store.clock whole whole store.updates

namespace Linearized

variable {store next : ConcurrentStore}

theorem start (totalMemory exponent : ℕ) (clock : Int)
    : (start totalMemory exponent clock).Linearized :=
  ⟨_, rfl, restartable_empty totalMemory exponent clock⟩

/-- An update of a worker is the execution of its command as a whole, or nothing. -/
theorem execute (linearized : store.Linearized) (thread : Thread) (refusals : Refusals)
    {now : Int} (advances : store.clock ≤ now) (fresh : store.Fresh now) {command : ICommand}
    (wellFormed : command.WellFormed) (underLock : Bool)
    : (store.update thread now command underLock
        (command.lockedSection refusals now store.router)).Linearized := by
  obtain ⟨whole, same, restartable⟩ := linearized
  have lasts : whole.LastsUntil now := .of_fresh (same ▸ fresh)
  rcases command.lockedSection_none_or_refused refusals now store.router store.aof with
    ⟨full, -⟩ | ⟨refused, -⟩
  · refine ⟨whole.access now (.execute .none command wellFormed), ?_, ?_⟩
    · rw [full, ← same]
      exact (command.execute_eq_lockedSection .none now whole.router whole.aof).1
    · have executed := (restartable.later advances).execute lasts wellFormed
      rw [same, ← ICommand.lockedSection_none, ← full] at executed
      unfold update
      cases logs : (command.lockedSection refusals now store.router).2 with
      | true => simpa only [logs, if_true] using executed
      | false => simpa only [logs, Bool.false_eq_true, if_false, List.append_nil] using executed
  · rw [refused]
    exact ⟨whole, same, restartable.later advances⟩

/-- An update of the sweeper is a sweep as a whole. -/
theorem sweep (linearized : store.Linearized) {now : Int} (advances : store.clock ≤ now)
    (fresh : store.Fresh now) (key : Bytes) (rest : List Bytes)
    : Linearized
        { store.update .sweeper now (.del key) false
            ((store.router.evictExpired now key).2, (store.router.evictExpired now key).1) with
          expired := rest } := by
  obtain ⟨whole, same, restartable⟩ := linearized
  have lasts : whole.LastsUntil now := .of_fresh (same ▸ fresh)
  refine ⟨whole.access now (.sweep key), ?_, ?_⟩
  · rw [← same]
    rfl
  · have swept := (restartable.later advances).sweep lasts key
    rw [same, ← ShardRouter.evictExpired_fst] at swept
    unfold update
    cases logs : (store.router.evictExpired now key).1 with
    | true => simpa only [logs, if_true] using swept
    | false => simpa only [logs, Bool.false_eq_true, if_false, List.append_nil] using swept

theorem step {turn : Turn} (linearized : store.Linearized) (lasting : store.NoneExpires turn)
    (taken : store.step turn = some next)
    : next.Linearized := by
  cases takes_of_step taken with
  | execute advances wellFormed =>
      exact linearized.execute _ _ advances lasting wellFormed _
  | sweep rest advances => exact linearized.sweep advances lasting _ rest
  | advanceTick | append | flushRound => exact linearized

end Linearized

-----------------------------------------------------------------------------------------
-- Whole runs
-----------------------------------------------------------------------------------------

/-- Once no record is pending, a replay of the log is one of all updates in their order. -/
theorem restartable_of_ordered {store : ConcurrentStore} (ordered : store.Ordered)
    (linearized : store.Linearized) (done : store.pending = [])
    : ∃ whole : LoggedStore,
        whole.router = store.router
        ∧ Restartable store.clock whole store.toLoggedStore store.appended := by
  obtain ⟨whole, same, restartable⟩ := linearized
  have order := ordered.order
  have among := ordered.among
  simp only [done, List.map_nil, List.append_nil] at order among
  exact ⟨whole, same,
    {
      restartable with
      ready := ordered.ready
      content := ordered.content
      wellFormed := fun record member => restartable.wellFormed record (among record member)
      words := same ▸ restartable.words
      holds := fun key => same ▸ restartable.holds key
      replayable := fun key => order key ▸ restartable.replayable key
    }⟩

/-- In a run whose records are all appended in turn, the log has the records of every key in
the order of its updates. Once no record is pending and as long as nothing expires, a replay
of the log gives every key the value that it has.
-/
theorem log_ordered_of_inTurn (totalMemory exponent : ℕ) (clock : Int)
    {steps : List (ConcurrentStore × Turn)} {store : ConcurrentStore}
    (run
      : TransitionSystem.Run ConcurrentStore.step (start totalMemory exponent clock) steps store)
    (inTurn : TransitionSystem.Along InTurn steps)
    : store.aof.content = encodeLines (store.appended.map ICommand.serialize)
      ∧ (∀ key, recordsOf key store.appended <+: recordsOf key store.updates)
      ∧ (store.pending = []
        → TransitionSystem.Along NoneExpires steps
        → ∀ (around : Surroundings) (totalMemory' exponent' : ℕ) (now : Int),
            store.clock ≤ now
            → now ≤ around.start
            → around.Roomy
            → store.Fresh around.finish
            → ∀ key,
                (store.restart around totalMemory' exponent').liveValue around.finish key
                  = store.liveValue now key) := by
  have ordered : store.Ordered := run.invariant Ordered.step inTurn (.start ..)
  refine ⟨ordered.content, ?_, ?_⟩
  · intro key
    rw [← ordered.order, recordsOf_append]
    exact List.prefix_append _ _
  · intro done lasting around totalMemory' exponent' now past later roomy fresh key
    have linearized : store.Linearized := run.invariant Linearized.step lasting (.start ..)
    obtain ⟨whole, same, restartable⟩ := restartable_of_ordered ordered linearized done
    have lasts : whole.LastsUntil around.finish := .of_fresh (same ▸ fresh)
    have span : around.start ≤ around.finish := (around.within 0).1.trans (around.within 0).2
    have restarted := (restartable.later (past.trans later)).restart roomy lasts totalMemory'
      exponent'
    have before := ((restartable.later past).holds key).liveValue
      ((lasts key).before (later.trans span))
    unfold LoggedStore.liveValue
    exact ((restarted.holds key).liveValue (lasts key)).trans before.symm

theorem fresh_start (totalMemory exponent : ℕ) (clock limit : Int)
    : (start totalMemory exponent clock).Fresh limit := by
  intro key value found
  simp [start, LoggedStore.empty] at found

/-- A value with a positive time to live is fresh until that has passed. -/
theorem Fresh.set {store : ConcurrentStore} {limit now ttl : Int} (fresh : store.Fresh limit)
    (alive : limit < now + ttl * nanosecondsPerSecond) (key text : Bytes) (thread : Thread)
    (record : ICommand) (underLock : Bool)
    : (store.update thread now record underLock
        ((ICommand.set key text ttl).lockedSection .none now store.router)).Fresh limit := by
  intro other value found kept positive
  simp only [update, ICommand.lockedSection, ShardRouter.set_eq,
    ShardRouter.entry_putShard_insert] at found
  split at found
  · obtain rfl := Option.some.inj found
    rw [← Bool.not_eq_true, CacheAlignedValue.isExpired_iff_of_pos positive]
    exact not_le.mpr alive
  · exact fresh other value found kept positive

/-- A thread that holds the oldest record appends it in turn. -/
theorem inTurn_of_first {store : ConcurrentStore} {thread : Thread} {first : PendingRecord}
    {rest : List PendingRecord} (holds : store.pending = first :: rest)
    (others : ∀ record ∈ rest, record.thread ≠ thread)
    : store.InTurn (.append thread) := by
  intro front record back same own
  cases front with
  | nil => simp
  | cons oldest later =>
      obtain ⟨-, same⟩ := List.cons.inj (holds.symm.trans same)
      exact absurd own (others record (by simp [same]))

/-- Two workers set one key, the first to `a` and the second to `b`. -/
def twoSets : List Turn :=
  [.execute 0 .none 0 (.set (ascii "k") (ascii "a") 86400),
    .execute 1 .none 0 (.set (ascii "k") (ascii "b") 86400)]

/-- The second worker overtakes the first: the log has `b` before `a`, and a replay gives the
key the value `a` where the store has `b`.
-/
theorem log_ordered_fails
    : ∃ steps store,
        TransitionSystem.Run step (start 1024 0 0) steps store
        ∧ TransitionSystem.Along NoneExpires steps
        ∧ store.pending = []
        ∧ store.Fresh nanosecondsPerSecond
        ∧ ¬ recordsOf (ascii "k") store.appended <+: recordsOf (ascii "k") store.updates
        ∧ (store.restart (.instant nanosecondsPerSecond) 1024 0).liveValue nanosecondsPerSecond
              (ascii "k")
            = some (.string (ascii "a"), 86400)
        ∧ store.liveValue 0 (ascii "k") = some (.string (ascii "b"), 86400) := by
  have traced
      : TransitionSystem.trace step (start 1024 0 0)
          (twoSets ++ [.append (.worker 1), .append (.worker 0)]) = some _ := rfl
  have fresh {limit : Int} (early : limit < 0 + 86400 * nanosecondsPerSecond) :=
    (fresh_start 1024 0 0 limit).set early (ascii "k") (ascii "a") (.worker 0)
      (.set (ascii "k") (ascii "a") 86400) false
  refine ⟨_, _, TransitionSystem.run_of_trace traced, ?_, rfl, ?_, ?_, rfl, rfl⟩
  · exact List.forall_mem_cons.mpr ⟨fresh_start 1024 0 0 0,
      List.forall_mem_cons.mpr ⟨fresh (by decide),
        List.forall_mem_cons.mpr ⟨trivial, List.forall_mem_singleton.mpr trivial⟩⟩⟩
  · exact (fresh (by decide)).set (by decide) (ascii "k") (ascii "b") (.worker 1)
      (.set (ascii "k") (ascii "b") 86400) false
  · decide

/-- With the appends in the order of the updates, the replay gives the key its value. -/
theorem log_ordered_of_inTurn_twoSets
    : ∃ steps store,
        TransitionSystem.Run step (start 1024 0 0) steps store
        ∧ recordsOf (ascii "k") store.appended <+: recordsOf (ascii "k") store.updates
        ∧ (store.restart (.instant nanosecondsPerSecond) 1024 0).liveValue nanosecondsPerSecond
              (ascii "k")
            = store.liveValue 0 (ascii "k") := by
  have traced
      : TransitionSystem.trace step (start 1024 0 0)
          (twoSets ++ [.append (.worker 0), .append (.worker 1)]) = some _ := rfl
  have fresh {limit : Int} (early : limit < 0 + 86400 * nanosecondsPerSecond) :=
    (fresh_start 1024 0 0 limit).set early (ascii "k") (ascii "a") (.worker 0)
      (.set (ascii "k") (ascii "a") 86400) false
  have run := TransitionSystem.run_of_trace traced
  obtain ⟨-, order, replayed⟩ := log_ordered_of_inTurn 1024 0 0 run
    (List.forall_mem_cons.mpr ⟨trivial, List.forall_mem_cons.mpr ⟨trivial,
      List.forall_mem_cons.mpr ⟨inTurn_of_first rfl (by decide),
        List.forall_mem_singleton.mpr (inTurn_of_first rfl (by decide))⟩⟩⟩)
  refine ⟨_, _, run, order _, ?_⟩
  refine replayed rfl ?_ (.instant nanosecondsPerSecond) 1024 0 0 le_rfl (by decide)
    (fun _ => rfl) ?_ _
  · exact List.forall_mem_cons.mpr ⟨fresh_start 1024 0 0 0,
      List.forall_mem_cons.mpr ⟨fresh (by decide),
        List.forall_mem_cons.mpr ⟨trivial, List.forall_mem_singleton.mpr trivial⟩⟩⟩
  · exact (fresh (by decide)).set (by decide) (ascii "k") (ascii "b") (.worker 1)
      (.set (ascii "k") (ascii "b") 86400) false

end ConcurrentStore

end InMemoryDB
