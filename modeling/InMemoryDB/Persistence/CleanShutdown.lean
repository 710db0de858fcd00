import InMemoryDB.Daemons.FlushThread
import InMemoryDB.Network.Dispatch
import InMemoryDB.Persistence.Sweeping

/-! The whole server from the start of its log to the end of its shutdown: every acknowledged
write is in the file.
-/

namespace InMemoryDB

namespace ICommand

/-- The reply acknowledges a write. -/
def acknowledgedBy (reply : Bytes) : ICommand → Bool
  | .set .. => reply = okReply
  | .del _ => reply = integerReply 1
  | .lpush .. => (ascii ":").isPrefixOf reply
  | .hset .. => reply = integerReply 0 || reply = integerReply 1
  | .get _ | .exists _ | .ping | .lrange .. | .hget .. => false

/-- A command is logged when its reply acknowledges it, by cases on the command. -/
theorem acknowledgedBy_effect (command : ICommand) (now : Int) (entry : Option CacheAlignedValue)
    : command.acknowledgedBy (command.effect now entry).reply
      = (command.effect now entry).logged := by
  cases writes : command.isWrite with
  | false =>
      obtain ⟨reply, same⟩ := effect_of_read writes now entry
      rw [same]
      cases command with
      | set | del | lpush | hset => cases writes
      | get | «exists» | ping | lrange | hget => rfl
  | true =>
      cases command with
      | set => rfl
      | del key =>
          unfold effect
          cases entry with
          | none => rfl
          | some value =>
              cases dead : value.tombstoned with
              | true =>
                  simp only [dead, if_true]
                  rfl
              | false =>
                  simp only [dead, Bool.false_eq_true, if_false]
                  rfl
      | lpush key value ttl =>
          rcases @effect_of_container (.lpush key value ttl) _ rfl now entry with
            ⟨data, -, -, same⟩ | ⟨found, data, number, -, -, -, same⟩ | ⟨found, -, -, same⟩
          all_goals
            rw [same]
            rfl
      | hset key field value ttl =>
          unfold effect
          cases liveEntry now entry with
          | none => rfl
          | some found =>
              cases holds : found.data with
              | hash fields =>
                  simp only [holds]
                  split <;> rfl
              | string _ | integer _ | list _ =>
                  simp only [holds]
                  rfl
      | get | «exists» | ping | lrange | hget => cases writes

/-- Whatever the arenas refuse, a command logs itself when its reply acknowledges it. -/
theorem lockedSection_acknowledgedBy (refusals : Refusals) (now : Int) (command : ICommand)
    (router : ShardRouter) (aof : AofLogger)
    : (command.lockedSection refusals now router).2
      = command.acknowledgedBy (command.execute refusals now router aof).reply := by
  rcases command.lockedSection_none_or_refused refusals now router aof with
    ⟨section', same⟩ | ⟨section', -, refused⟩
  · rw [section', same, lockedSection_none, (command.realizes router aof now).reply,
      acknowledgedBy_effect]
  · rw [section', refused]
    cases command <;> rfl

end ICommand

-----------------------------------------------------------------------------------------
-- The records of the workers
-----------------------------------------------------------------------------------------

/-- The records of all workers, whichever holds each. -/
def ofWorkers (entries : List (Thread × ICommand)) : List ICommand :=
  entries.filterMap fun entry =>
    match entry.1 with
    | .worker _ => some entry.2
    | .sweeper => none

@[simp] theorem ofWorkers_cons_worker (worker : ℕ) (command : ICommand)
    (rest : List (Thread × ICommand))
    : ofWorkers ((.worker worker, command) :: rest) = command :: ofWorkers rest := rfl

@[simp] theorem ofWorkers_cons_sweeper (command : ICommand) (rest : List (Thread × ICommand))
    : ofWorkers ((.sweeper, command) :: rest) = ofWorkers rest := rfl

theorem ofWorkers_append (front back : List (Thread × ICommand))
    : ofWorkers (front ++ back) = ofWorkers front ++ ofWorkers back :=
  List.filterMap_append

/-- Where only the sweeper has records, the workers have none. -/
theorem ofWorkers_eq_nil {entries : List (Thread × ICommand)}
    (others : ∀ entry ∈ entries, entry.1 = .sweeper)
    : ofWorkers entries = [] := by
  refine List.filterMap_eq_nil_iff.mpr fun entry member => ?_
  rw [others entry member]

/-- Every record is a worker's or the sweeper's, by induction on the records. -/
theorem perm_ofWorkers (entries : List (Thread × ICommand))
    : (entries.map Prod.snd).Perm (ofWorkers entries ++ ofClient .sweeper entries) := by
  induction entries with
  | nil => exact .nil
  | cons entry rest ih =>
      obtain ⟨thread, command⟩ := entry
      cases thread with
      | worker index =>
          rw [ofWorkers_cons_worker, ofClient_cons_of_ne (by simp)]
          exact ih.cons command
      | sweeper =>
          rw [ofWorkers_cons_sweeper, ofClient_cons_self]
          exact (ih.cons command).trans List.perm_middle.symm

-----------------------------------------------------------------------------------------
-- The server
-----------------------------------------------------------------------------------------

/-- The pool with the pipeline in front of it, the store with the records on their way to the
log, where the flush thread and `AofLogger::shutdown` are, the lines written, for proofs, and
whether the reactor is still in its loop.
-/
structure Host where
  dispatch : Dispatch
  store : ConcurrentStore
  flusher : FlushThread := .testing
  shutdownCall : ShutdownCall := .uncalled
  written : List Bytes := []
  serving : Bool := true

/-- A turn of one thread. -/
inductive HostAction where
  | pool (action : DispatchAction)
  | execute (worker : ℕ) (refusals : Refusals) (now : Int)
  | append (thread : Thread)
  | advanceTick (wheel : TimingWheel)
  | sweep (now : Int)
  | logger (action : LoggerAction)
  | stopReactor

namespace Host

/-- A server on a log file and a store, from the start of the log on. -/
def start (threads capacity : ℕ) (file : Bytes) (router : ShardRouter) (clock : Int) : Host where
  dispatch := .start threads capacity
  store := { router := router, aof := AofLogger.start { file := file }, clock := clock }

/-- The logger with its threads. -/
def logger (host : Host) : LoggerThreads where
  aof := host.store.aof
  flusher := host.flusher
  shutdownCall := host.shutdownCall
  written := host.written

def withLogger (logger : LoggerThreads) (host : Host) : Host :=
  { host with
    store := { host.store with aof := logger.aof }
    flusher := logger.flusher
    shutdownCall := logger.shutdownCall
    written := logger.written }

/-- The command of the task that a worker has taken and not yet executed. -/
def commandOf (worker : ℕ) (host : Host) : Option ICommand :=
  (Server.extract (fun busy => busy.worker = worker && busy.response.isNone)
    host.dispatch.busy).map fun cut => cut.2.1.task.command

/-- The reactor processes and drains until it has been stopped, and the pool is shut down once
and after that. A worker executes in a turn of its own, and posts when it has logged.
-/
def permits (host : Host) : DispatchAction → Bool
  | .process .. | .drain => host.serving
  | .execute .. => false
  | .post worker => host.store.idle (.worker worker)
  | .shutdown => !host.serving && host.dispatch.shutdownCall = .uncalled
  | .pop _ | .exit _ | .join => true

/-- The logger is shut down when the shutdown of the pool has returned; records come from the
turns that append.
-/
def permitsLogger (host : Host) : LoggerAction → Bool
  | .log _ => false
  | .shutdown => host.dispatch.shutdownCall = .returned
  | .test | .swap | .writeLine | .join | .flushLine => true

/-- One turn, if the thread can take it. -/
def step (host : Host) : HostAction → Option Host
  | .pool action =>
      if host.permits action then
        (host.dispatch.step action).map fun dispatch => { host with dispatch := dispatch }
      else none
  | .execute worker refusals now =>
      match host.commandOf worker with
      | none => none
      | some command =>
          if host.store.clock ≤ now ∧ command.key?.any host.store.locked = false then
            let done := command.execute refusals now host.store.router host.store.aof
            (host.dispatch.step (.execute worker done.reply)).map fun dispatch =>
              { host with
                dispatch := dispatch
                store :=
                  host.store.update (.worker worker) now command command.logsUnderLock
                    (command.lockedSection refusals now host.store.router) }
          else none
  | .append thread =>
      match host.shutdownCall with
      | .flushing _ => none
      | _ => (host.store.step (.append thread)).map fun store => { host with store := store }
  | .advanceTick wheel =>
      (host.store.step (.advanceTick wheel)).map fun store => { host with store := store }
  | .sweep now => (host.store.step (.sweep now)).map fun store => { host with store := store }
  | .logger action =>
      if host.permitsLogger action then (host.logger.step action).map host.withLogger else none
  | .stopReactor => some { host with serving := false }

-----------------------------------------------------------------------------------------
-- Acknowledgements, records and removals of a run
-----------------------------------------------------------------------------------------

/-- The commands whose executions were acknowledged. -/
def acknowledged (steps : List (Host × HostAction)) : List ICommand :=
  steps.filterMap fun entry =>
    match entry.2 with
    | .execute worker refusals now =>
        (entry.1.commandOf worker).filter fun command =>
          command.acknowledgedBy
            (command.execute refusals now entry.1.store.router entry.1.store.aof).reply
    | _ => none

/-- The records that the log accepts. -/
def logged (steps : List (Host × HostAction)) : List (Thread × ICommand) :=
  steps.flatMap fun entry =>
    match entry.2 with
    | .append thread =>
        if entry.1.store.aof.running then
          ConcurrentStore.records [(entry.1.store, .append thread)]
        else []
    | _ => []

/-- The keys whose entries the sweeper removes. -/
def removals (steps : List (Host × HostAction)) : List Bytes :=
  steps.flatMap fun entry =>
    match entry.2 with
    | .sweep now => ConcurrentStore.removals [(entry.1.store, .sweep now)]
    | _ => []

theorem acknowledged_append (front back : List (Host × HostAction))
    : acknowledged (front ++ back) = acknowledged front ++ acknowledged back :=
  List.filterMap_append

theorem logged_append (front back : List (Host × HostAction))
    : logged (front ++ back) = logged front ++ logged back :=
  List.flatMap_append

theorem removals_append (front back : List (Host × HostAction))
    : removals (front ++ back) = removals front ++ removals back :=
  List.flatMap_append

theorem logged_snoc {steps : List (Host × HostAction)} {host : Host} {action : HostAction}
    (silent : logged [(host, action)] = [])
    : logged (steps ++ [(host, action)]) = logged steps := by
  rw [logged_append, silent, List.append_nil]

-----------------------------------------------------------------------------------------
-- What a turn adds to the records
-----------------------------------------------------------------------------------------

/-- What a turn adds to the records in the log and on their way is what it acknowledges, as far
as they are the workers', and at most what it removes, as far as they are the sweeper's.
-/
structure Accounts (host : Host) (action : HostAction) (next : Host) : Prop where
  writes
    : (ofWorkers (logged [(host, action)] ++ next.store.heldRecords)).Perm
        (ofWorkers host.store.heldRecords ++ acknowledged [(host, action)])
  sweeps
    : (ofClient .sweeper (logged [(host, action)] ++ next.store.heldRecords)).Sublist
        (ofClient .sweeper host.store.heldRecords ++ (removals [(host, action)]).map .del)

namespace Accounts

variable {host next : Host} {action : HostAction}

/-- A turn that has to do with no record. -/
theorem quiet (logs : logged [(host, action)] = [])
    (acknowledges : acknowledged [(host, action)] = [])
    (removes : removals [(host, action)] = [])
    (held : next.store.heldRecords = host.store.heldRecords)
    : host.Accounts action next := by
  constructor
  · rw [logs, acknowledges, held, List.append_nil]
    exact .refl _
  · rw [logs, removes, held, List.map_nil, List.append_nil]
    exact .refl _

/-- A worker that executes holds a record if it acknowledges its command. -/
theorem execute {worker : ℕ} {refusals : Refusals} {now : Int}
    (taken : host.step (.execute worker refusals now) = some next)
    : host.Accounts (.execute worker refusals now) next := by
  simp only [step] at taken
  split at taken
  · cases taken
  · rename_i command found
    split at taken
    · obtain ⟨dispatch, -, rfl⟩ := Option.map_eq_some_iff.mp taken
      have silent : logged [(host, .execute worker refusals now)] = [] := rfl
      have kept : removals [(host, .execute worker refusals now)] = [] := rfl
      have given
          : acknowledged [(host, .execute worker refusals now)]
            = if (command.lockedSection refusals now host.store.router).2 then [command]
              else [] := by
        rw [command.lockedSection_acknowledgedBy refusals now _ host.store.aof]
        simp only [acknowledged, List.filterMap_cons, List.filterMap_nil, found,
          Option.filter_some]
        generalize command.acknowledgedBy _ = acknowledges
        cases acknowledges <;> rfl
      constructor
      · rw [silent, given]
        simp only [ConcurrentStore.heldRecords, ConcurrentStore.update, List.nil_append]
        split
        · rw [List.map_append, ofWorkers_append]
          exact .refl _
        · exact (List.append_nil _).symm ▸ .refl _
      · rw [silent, kept, List.map_nil, List.append_nil, List.nil_append]
        simp only [ConcurrentStore.heldRecords, ConcurrentStore.update]
        split
        · simp [ofClient]
        · exact .refl _
    · cases taken

/-- The sweeper holds a record if it removes an entry. -/
theorem sweep {now : Int} (taken : host.step (.sweep now) = some next)
    : host.Accounts (.sweep now) next := by
  obtain ⟨store, swept, rfl⟩ := Option.map_eq_some_iff.mp taken
  have silent : logged [(host, .sweep now)] = [] := rfl
  have kept : acknowledged [(host, .sweep now)] = [] := rfl
  constructor
  · obtain ⟨key, rest, more, -, rfl⟩ := ConcurrentStore.sweep_of_step swept
    rw [silent, kept, List.nil_append, List.append_nil]
    simp only [ConcurrentStore.heldRecords, ConcurrentStore.update]
    split
    · rw [List.map_append, ofWorkers_append]
      exact (List.append_nil _).symm ▸ .refl _
    · exact .refl _
  · have removed
        : removals [(host, .sweep now)] = ConcurrentStore.removals [(host.store, .sweep now)] :=
      List.append_nil _
    rw [silent, removed, ← ConcurrentStore.heldRecords_step swept]
    exact .refl _

/-- A thread that appends moves its record to the log, unless this is the sweeper and the log
has been stopped.
-/
theorem append {thread : Thread} {store : ConcurrentStore}
    (taken : host.store.step (.append thread) = some store)
    (runs
      : ∀ record ∈ host.store.pending, ∀ worker,
          record.thread = .worker worker → host.store.aof.running = true)
    : host.Accounts (.append thread) { host with store := store } := by
  have kept : acknowledged [(host, .append thread)] = [] := rfl
  have removed : removals [(host, .append thread)] = [] := rfl
  have sweeps := ConcurrentStore.heldRecords_step taken
  obtain ⟨front, record, back, holds, own, others, rfl⟩ := ConcurrentStore.append_of_step taken
  have given := ConcurrentStore.records_append holds own others
  have accepted
      : logged [(host, .append thread)]
        = if host.store.aof.running then [(thread, record.command)] else [] := by
    rw [← given]
    exact List.append_nil _
  constructor
  · rw [accepted, kept, List.append_nil]
    simp only [ConcurrentStore.heldRecords, holds, List.map_append, List.map_cons, own]
    cases thread with
    | worker index =>
        rw [if_pos (runs record (holds ▸ List.mem_append_right _ List.mem_cons_self) index own),
          List.singleton_append, ofWorkers_cons_worker]
        simp only [ofWorkers_append, ofWorkers_cons_worker]
        exact List.perm_middle.symm
    | sweeper =>
        simp only [ofWorkers_append, ofWorkers_cons_sweeper]
        split <;> exact .refl _
  · have none : ConcurrentStore.removals [(host.store, .append thread)] = [] := rfl
    rw [none] at sweeps
    rw [removed, ← sweeps, given, accepted]
    split
    · exact .refl _
    · exact (List.sublist_append_right _ _).filterMap _

end Accounts

-----------------------------------------------------------------------------------------
-- The account of a run
-----------------------------------------------------------------------------------------

/-- The records in the log and on their way are the acknowledged commands and evictions, and
each stage of the shutdown waits for the one before it.
-/
structure Accounted (threads capacity : ℕ) (file : Bytes) (steps : List (Host × HostAction))
    (host : Host)
    : Prop where
  pool : host.dispatch.Sound threads capacity
  logger : host.logger.Faithful file ((logged steps).map fun entry => entry.2.serialize)
  live : host.store.aof.isReplaying = false
  stopped : host.store.aof.running = false → host.dispatch.shutdownCall = .returned
  workers
    : ∀ record ∈ host.store.pending, ∀ worker,
        record.thread = .worker worker → ∃ busy ∈ host.dispatch.busy, busy.worker = worker
  writes : (ofWorkers (logged steps ++ host.store.heldRecords)).Perm (acknowledged steps)
  sweeps
    : (ofClient .sweeper (logged steps ++ host.store.heldRecords)).Sublist
        ((removals steps).map .del)

namespace Accounted

variable {threads capacity : ℕ} {file : Bytes} {steps : List (Host × HostAction)}
  {host next : Host} {action : HostAction}

theorem start (threads capacity : ℕ) (file : Bytes) (router : ShardRouter) (clock : Int)
    : Accounted threads capacity file [] (.start threads capacity file router clock) where
  pool := Dispatch.sound_start threads capacity
  logger := LoggerThreads.faithful_start file
  live := rfl
  stopped := by simp [Host.start, AofLogger.start]
  workers := by simp [Host.start]
  writes := .nil
  sweeps := .slnil

/-- As long as a worker holds a record, the log has not been stopped. -/
theorem running (accounted : Accounted threads capacity file steps host)
    {record : PendingRecord} (held : record ∈ host.store.pending) {worker : ℕ}
    (own : record.thread = .worker worker)
    : host.store.aof.running = true := by
  by_contra stopped
  obtain ⟨busy, member, -⟩ := accounted.workers record held worker own
  have idle := accounted.pool.idle (accounted.stopped (by simpa using stopped))
  rw [idle] at member
  cases member

/-- What a turn adds is added to the accounts. -/
theorem writes_snoc (accounted : Accounted threads capacity file steps host)
    (accounts : host.Accounts action next)
    : (ofWorkers (logged (steps ++ [(host, action)]) ++ next.store.heldRecords)).Perm
        (acknowledged (steps ++ [(host, action)])) := by
  rw [logged_append, acknowledged_append, List.append_assoc, ofWorkers_append]
  apply (accounts.writes.append_left _).trans
  rw [← List.append_assoc, ← ofWorkers_append]
  exact accounted.writes.append_right _

theorem sweeps_snoc (accounted : Accounted threads capacity file steps host)
    (accounts : host.Accounts action next)
    : (ofClient .sweeper (logged (steps ++ [(host, action)]) ++ next.store.heldRecords)).Sublist
        ((removals (steps ++ [(host, action)])).map .del) := by
  rw [logged_append, removals_append, List.append_assoc, ofClient_append, List.map_append]
  apply (accounts.sweeps.append_left _).trans
  rw [← List.append_assoc, ← ofClient_append]
  exact accounted.sweeps.append_right _

/-- A turn of the reactor, of a worker or of the shutdown of the pool moves no record; a worker
that holds one keeps its task.
-/
theorem pool_step (accounted : Accounted threads capacity file steps host)
    {action : DispatchAction} (taken : host.step (.pool action) = some next)
    : Accounted threads capacity file (steps ++ [(host, .pool action)]) next := by
  simp only [step] at taken
  split at taken
  · rename_i permitted
    obtain ⟨dispatch, moved, rfl⟩ := Option.map_eq_some_iff.mp taken
    have takes := Dispatch.takes_of_step moved
    have accounts : host.Accounts (.pool action) { host with dispatch := dispatch } :=
      .quiet rfl rfl rfl rfl
    refine { accounted with
      pool := accounted.pool.step takes
      logger := ?_
      stopped := ?_
      workers := ?_
      writes := accounted.writes_snoc accounts
      sweeps := accounted.sweeps_snoc accounts }
    · rw [logged_snoc (by rfl)]
      exact accounted.logger
    · intro stopped
      refine takes.returned ?_ (accounted.stopped stopped)
      intro shuts returned
      obtain rfl := shuts
      simp [permits, returned] at permitted
    · intro record held worker own
      refine takes.worker ?_ (accounted.workers record held worker own)
      intro posts
      obtain rfl := posts
      have idle : host.store.idle (.worker worker) = true := permitted
      exact absurd own (by simpa using List.all_eq_true.mp idle record held)
  · cases taken

/-- A worker that executes may hold a record from then on, and it holds a task. -/
theorem execute (accounted : Accounted threads capacity file steps host) {worker : ℕ}
    {refusals : Refusals} {now : Int}
    (taken : host.step (.execute worker refusals now) = some next)
    : Accounted threads capacity file (steps ++ [(host, .execute worker refusals now)]) next := by
  have accounts := Accounts.execute taken
  simp only [step] at taken
  split at taken
  · cases taken
  · rename_i command found
    split at taken
    · obtain ⟨dispatch, moved, rfl⟩ := Option.map_eq_some_iff.mp taken
      have takes := Dispatch.takes_of_step moved
      refine { accounted with
        pool := accounted.pool.step takes
        logger := ?_
        stopped := ?_
        workers := ?_
        writes := accounted.writes_snoc accounts
        sweeps := accounted.sweeps_snoc accounts }
      · rw [logged_snoc (by rfl)]
        exact accounted.logger
      · exact fun stopped => takes.returned (by simp) (accounted.stopped stopped)
      · intro record held other own
        have holds : ∃ busy ∈ host.dispatch.busy, busy.worker = other := by
          simp only [ConcurrentStore.update] at held
          split at held
          · rcases List.mem_append.mp held with before | last
            · exact accounted.workers record before other own
            · obtain rfl := List.mem_singleton.mp last
              obtain rfl := Thread.worker.inj own
              obtain ⟨⟨front, busy, back⟩, cut, -⟩ := Option.map_eq_some_iff.mp found
              have holds := Server.extract_eq_some cut
              refine ⟨busy, ?_, by simpa using (Bool.and_eq_true_iff.mp holds.2).1⟩
              rw [holds.1]
              exact List.mem_append_right _ List.mem_cons_self
          · exact accounted.workers record held other own
        exact takes.worker (by simp) holds
    · cases taken

/-- A thread that appends gives its record to the logger. -/
theorem append (accounted : Accounted threads capacity file steps host) {thread : Thread}
    (taken : host.step (.append thread) = some next)
    : Accounted threads capacity file (steps ++ [(host, .append thread)]) next := by
  simp only [step] at taken
  split at taken
  · cases taken
  · obtain ⟨store, appended, rfl⟩ := Option.map_eq_some_iff.mp taken
    have accounts := Accounts.append appended fun record held worker own =>
      accounted.running held own
    obtain ⟨front, record, back, holds, own, others, rfl⟩ :=
      ConcurrentStore.append_of_step appended
    have plain : host.store.aof.logUnlessReplaying record.command.serialize
        = host.store.aof.log record.command.serialize := by
      simp [AofLogger.logUnlessReplaying, accounted.live]
    have flags : (host.store.aof.log record.command.serialize).running
          = host.store.aof.running
        ∧ (host.store.aof.log record.command.serialize).isReplaying
          = host.store.aof.isReplaying := by
      simp only [AofLogger.log]
      split <;> simp
    refine { accounted with
      logger := ?_
      live := ?_
      stopped := ?_
      workers := ?_
      writes := accounted.writes_snoc accounts
      sweeps := accounted.sweeps_snoc accounts }
    · have given : (logged [(host, .append thread)]).map (fun entry => entry.2.serialize)
          = LoggerThreads.accepted [(host.logger, .log record.command.serialize)] := by
        simp only [logged, LoggerThreads.accepted, List.flatMap_cons, List.flatMap_nil,
          List.append_nil, ConcurrentStore.records_append holds own others, Host.logger,
          List.filterMap_cons, List.filterMap_nil]
        cases host.store.aof.running <;> rfl
      rw [logged_append, List.map_append, given, Host.logger]
      simp only [plain]
      exact accounted.logger.log record.command.serialize
    · simp only [plain, flags.2, accounted.live]
    · simp only [plain, flags.1]
      exact accounted.stopped
    · intro other held
      apply accounted.workers other
      rw [holds]
      rcases List.mem_append.mp held with before | behind
      · exact List.mem_append_left _ before
      · exact List.mem_append_right _ (List.mem_cons_of_mem _ behind)

/-- A turn of the logger moves lines that it has accepted; the log stops after the pool. -/
theorem logger_step (accounted : Accounted threads capacity file steps host)
    {action : LoggerAction} (taken : host.step (.logger action) = some next)
    : Accounted threads capacity file (steps ++ [(host, .logger action)]) next := by
  simp only [step] at taken
  split at taken
  · rename_i permitted
    obtain ⟨logger, moved, rfl⟩ := Option.map_eq_some_iff.mp taken
    obtain ⟨replaying, running⟩ := LoggerThreads.flags_of_step moved
    have accounts : host.Accounts (.logger action) (host.withLogger logger) :=
      .quiet rfl rfl rfl rfl
    refine { accounted with
      logger := ?_
      live := replaying.trans accounted.live
      stopped := ?_
      writes := accounted.writes_snoc accounts
      sweeps := accounted.sweeps_snoc accounts }
    · rw [logged_snoc (by rfl)]
      have faithful := accounted.logger.step moved
      have nothing : LoggerThreads.accepted [(host.logger, action)] = [] := by
        cases action with
        | log command => cases permitted
        | test | swap | writeLine | shutdown | join | flushLine => rfl
      rw [nothing, List.append_nil] at faithful
      exact faithful
    · intro stopped
      by_cases shuts : action = .shutdown
      · obtain rfl := shuts
        exact of_decide_eq_true permitted
      · exact accounted.stopped ((running shuts).symm.trans stopped)
  · cases taken

/-- A turn of the sweeper. -/
theorem sweep (accounted : Accounted threads capacity file steps host) {now : Int}
    (taken : host.step (.sweep now) = some next)
    : Accounted threads capacity file (steps ++ [(host, .sweep now)]) next := by
  have accounts := Accounts.sweep taken
  obtain ⟨store, swept, rfl⟩ := Option.map_eq_some_iff.mp taken
  obtain ⟨key, rest, -, -, rfl⟩ := ConcurrentStore.sweep_of_step swept
  refine { accounted with
    logger := ?_
    workers := ?_
    writes := accounted.writes_snoc accounts
    sweeps := accounted.sweeps_snoc accounts }
  · rw [logged_snoc (by rfl)]
    exact accounted.logger
  · intro record held worker own
    simp only [ConcurrentStore.update] at held
    split at held
    · rcases List.mem_append.mp held with before | last
      · exact accounted.workers record before worker own
      · obtain rfl := List.mem_singleton.mp last
        cases own
    · exact accounted.workers record held worker own

/-- Every turn keeps the accounts, by the lemma for its action. -/
theorem step (accounted : Accounted threads capacity file steps host)
    (taken : host.step action = some next)
    : Accounted threads capacity file (steps ++ [(host, action)]) next := by
  cases action with
  | pool action => exact accounted.pool_step taken
  | execute worker refusals now => exact accounted.execute taken
  | append thread => exact accounted.append taken
  | logger action => exact accounted.logger_step taken
  | sweep now => exact accounted.sweep taken
  | advanceTick wheel =>
      obtain ⟨store, ticked, rfl⟩ := Option.map_eq_some_iff.mp taken
      cases ConcurrentStore.takes_of_step ticked with
      | advanceTick keys =>
          have accounts
              : host.Accounts (.advanceTick wheel)
                { host with store := { host.store with expired := keys } } :=
            .quiet rfl rfl rfl rfl
          refine { accounted with
            logger := ?_
            writes := accounted.writes_snoc accounts
            sweeps := accounted.sweeps_snoc accounts }
          rw [logged_snoc (by rfl)]
          exact accounted.logger
  | stopReactor =>
      obtain rfl := Option.some.inj taken
      have accounts : host.Accounts .stopReactor { host with serving := false } :=
        .quiet rfl rfl rfl rfl
      refine { accounted with
        logger := ?_
        writes := accounted.writes_snoc accounts
        sweeps := accounted.sweeps_snoc accounts }
      rw [logged_snoc (by rfl)]
      exact accounted.logger

end Accounted

/-- The accounts are right after every run, by induction on the run. -/
theorem accounted_of_run {threads capacity : ℕ} {file : Bytes} {router : ShardRouter}
    {clock : Int} {steps : List (Host × HostAction)} {host : Host}
    (run
      : TransitionSystem.Run step (start threads capacity file router clock) steps host)
    : Accounted threads capacity file steps host := by
  induction run with
  | nil => exact .start threads capacity file router clock
  | snoc _ taken ih => exact ih.step taken

/-- When the shutdown of the log has returned, the file has in addition to what it held the
records of exactly the acknowledged commands, each as often as it was acknowledged, and evictions
by the sweeper, each with its own removal of an entry. With the pool back no worker holds a
record, so all of the workers' records are in the log; and the log is in the file.
-/
theorem acknowledged_kept (threads capacity : ℕ) (file : Bytes) (router : ShardRouter)
    (clock : Int) {steps : List (Host × HostAction)} {host : Host}
    (run
      : TransitionSystem.Run step (start threads capacity file router clock) steps host)
    (returned : host.shutdownCall = .returned)
    : ∃ (lines : List Bytes) (swept : List Bytes),
        host.store.aof.file = file ++ encodeLines lines
        ∧ lines.Perm
            ((acknowledged steps).map ICommand.serialize
              ++ swept.map TimingWheel.evictionRecord)
        ∧ swept.Sublist (removals steps) := by
  have accounted := accounted_of_run run
  have faithful := accounted.logger
  have written := faithful.written_of_returned returned
  have stopped : host.store.aof.running = false := by
    by_contra runs
    have uncalled := faithful.running.mp (Bool.eq_true_of_not_eq_false runs)
    cases uncalled.symm.trans returned
  have workers : ofWorkers host.store.heldRecords = [] := by
    refine ofWorkers_eq_nil fun entry held => ?_
    obtain ⟨record, member, rfl⟩ := List.mem_map.mp held
    cases own : record.thread with
    | worker index => cases stopped.symm.trans (accounted.running member own)
    | sweeper => rfl
  have writes := accounted.writes
  rw [ofWorkers_append, workers, List.append_nil] at writes
  have sweeps := accounted.sweeps
  rw [ofClient_append] at sweeps
  obtain ⟨swept, among, same⟩ :=
    List.sublist_map_iff.mp ((List.sublist_append_left _ _).trans sweeps)
  refine ⟨host.written, swept, faithful.file, ?_, among⟩
  have all := ((perm_ofWorkers (logged steps)).trans (writes.append_right _)).map
    ICommand.serialize
  rw [same, List.map_append, List.map_map, List.map_map] at all
  rw [show host.written = _ from faithful.written_of_returned returned]
  exact all

/-- A value is set, deleted and swept, a key that is not there is deleted, and the last write is
worked off during the shutdown.
-/
theorem acknowledged_kept_five
    : ∃ steps host,
        TransitionSystem.Run step (start 1 8 [] (.construct 1024 1) 0) steps host
        ∧ host.shutdownCall = .returned
        ∧ acknowledged steps
          = [.set (ascii "a") (ascii "1") defaultTtl, .del (ascii "a"),
              .lpush (ascii "l") (ascii "x") defaultTtl]
        ∧ ∃ (lines : List Bytes) (swept : List Bytes),
            host.store.aof.file = [] ++ encodeLines lines
            ∧ lines.Perm
                ((acknowledged steps).map ICommand.serialize
                  ++ swept.map TimingWheel.evictionRecord)
            ∧ swept.Sublist (removals steps) := by
  let request (line : String) (seqId : ℕ) : HostAction :=
    .pool (.process ⟨5, ascii line, seqId, ascii "10.0.0.1", 0⟩ fun _ => true)
  have traced
      : TransitionSystem.trace step (start 1 8 [] (.construct 1024 1) 0)
          [request "SET a 1" 0, request "DEL a" 1, request "DEL b" 2, request "LPUSH l x" 3,
            .pool (.pop 0), .execute 0 .none 1, .append (.worker 0), .pool (.post 0),
            .pool (.pop 0), .execute 0 .none 2, .logger .test, .logger .swap,
            .append (.worker 0), .pool (.post 0),
            .advanceTick { buckets := fun _ => [ascii "a"], startTime := 0 }, .sweep 3,
            .stopReactor, .pool .shutdown, .append .sweeper,
            .pool (.pop 0), .execute 0 .none 4, .pool (.post 0),
            .pool (.pop 0), .execute 0 .none 5, .append (.worker 0), .pool (.post 0),
            .pool (.exit 0), .pool .join, .logger .shutdown, .logger .writeLine,
            .logger .writeLine, .logger .test, .logger .join, .logger .flushLine,
            .logger .flushLine, .logger .flushLine, .logger .flushLine]
        = some _ := rfl
  have run := TransitionSystem.run_of_trace traced
  exact ⟨_, _, run, rfl, rfl, acknowledged_kept 1 8 [] (.construct 1024 1) 0 run rfl⟩

end Host

end InMemoryDB
