import InMemoryDB.Library.Progress
import InMemoryDB.Network.Completion
import InMemoryDB.Persistence.CleanShutdown

/-! The shutdown of the server comes to its end: no stage of it waits for a turn that never comes,
and every run of the turns that it waits for is bounded.
-/

namespace InMemoryDB

namespace Dispatch

variable {dispatch next : Dispatch} {action : DispatchAction}

/-- The flag of the pool is set until its shutdown is called. -/
def Flagged (dispatch : Dispatch) : Prop :=
  dispatch.pool.running = true ↔ dispatch.shutdownCall = .uncalled

/-- By cases on the turn; only the shutdown touches either. -/
theorem Flagged.step (flagged : dispatch.Flagged) (taken : dispatch.step action = some next)
    : next.Flagged := by
  cases action with
  | shutdown =>
      simp only [Dispatch.step] at taken
      split at taken
      · obtain rfl := Option.some.inj taken
        simp [Flagged]
      · obtain rfl := Option.some.inj taken
        exact flagged
  | join =>
      simp only [Dispatch.step] at taken
      split at taken
      · rename_i guards
        obtain rfl := Option.some.inj taken
        have stopped : dispatch.pool.running = false := by
          by_contra runs
          cases guards.1.symm.trans (flagged.mp (Bool.eq_true_of_not_eq_false runs))
        simp [Flagged, stopped]
      · cases taken
  | process | pop | execute | post | drain | exit =>
      cases takes_of_step taken
      all_goals exact flagged

-----------------------------------------------------------------------------------------
-- What the pool has still to do
-----------------------------------------------------------------------------------------

/-- How many of the calls in `WorkerPool::shutdown` are left. -/
def callsLeft (dispatch : Dispatch) : ℕ :=
  match dispatch.shutdownCall with
  | .uncalled => 2
  | .joining => 1
  | .returned => 0

/-- The workers that have not left their loop. -/
def staying (dispatch : Dispatch) : Finset ℕ :=
  Finset.range dispatch.pool.threadCount \ dispatch.exited

/-- What is left until the pool is shut down; to execute a task may make a record, which has to be
logged in further turns.
-/
def left (dispatch : Dispatch) : ℕ :=
  8 * dispatch.pool.queue.length
  + 7 * (dispatch.busy.filter fun busy => busy.response.isNone).length
  + (dispatch.busy.filter fun busy => busy.response.isSome).length
  + dispatch.staying.card
  + dispatch.callsLeft

theorem pop_left {worker : ℕ} (taken : dispatch.step (.pop worker) = some next)
    : next.left < dispatch.left := by
  cases takes_of_step taken with
  | pop first waits =>
      simp only [left, staying, callsLeft, first, List.filter_append, List.filter_cons,
        List.filter_nil, Option.isNone_none, Option.isSome_none, if_true, Bool.false_eq_true,
        if_false, List.length_append, List.length_cons, List.length_nil]
      omega

theorem execute_left {worker : ℕ} {response : Bytes}
    (taken : dispatch.step (.execute worker response) = some next)
    : next.left + 6 = dispatch.left := by
  simp only [step] at taken
  split at taken
  · cases taken
  · rename_i front busy back cut
    split at taken
    · obtain rfl := Option.some.inj taken
      obtain ⟨holds, met⟩ := Server.extract_eq_some cut
      have waits : busy.response = none := by simpa using (Bool.and_eq_true_iff.mp met).2
      simp only [left, staying, callsLeft, holds, waits, List.filter_append, List.filter_cons,
        Option.isNone_none, Option.isSome_none, Option.isNone_some, Option.isSome_some, if_true,
        Bool.false_eq_true, if_false, List.length_append, List.length_cons]
      omega
    · cases taken

theorem post_left {worker : ℕ} (taken : dispatch.step (.post worker) = some next)
    : next.left < dispatch.left := by
  simp only [step] at taken
  split at taken
  · cases taken
  · rename_i front busy back cut
    obtain ⟨response, done, rfl⟩ := Option.map_eq_some_iff.mp taken
    obtain ⟨holds, -⟩ := Server.extract_eq_some cut
    simp only [left, staying, callsLeft, WorkerPool.push, holds, done, List.filter_append,
      List.filter_cons, Option.isNone_some, Option.isSome_some, if_true, Bool.false_eq_true,
      if_false, List.length_append, List.length_cons]
    omega

/-- The call that clears the flag is the first. -/
theorem shutdown_left (uncalled : dispatch.shutdownCall = .uncalled)
    (runs : dispatch.pool.running = true) (taken : dispatch.step .shutdown = some next)
    : next.left < dispatch.left := by
  simp only [step, runs, if_true] at taken
  obtain rfl := Option.some.inj taken
  simp only [left, staying, callsLeft, uncalled]
  omega

/-- A worker leaves for good. -/
theorem exit_left {worker : ℕ} (taken : dispatch.step (.exit worker) = some next)
    : next.left < dispatch.left := by
  cases takes_of_step taken with
  | exit waits =>
      obtain ⟨below, stays, -⟩ := waits_iff.mp waits
      have member : worker ∈ dispatch.staying :=
        Finset.mem_sdiff.mpr ⟨Finset.mem_range.mpr below, stays⟩
      have rest
          : staying { dispatch with exited := insert worker dispatch.exited }
            = dispatch.staying.erase worker :=
        Finset.sdiff_insert _ _ _
      have fewer := Finset.card_erase_lt_of_mem member
      simp only [left, callsLeft, rest]
      omega

theorem join_left (taken : dispatch.step .join = some next) : next.left < dispatch.left := by
  simp only [step] at taken
  split at taken
  · rename_i guards
    obtain rfl := Option.some.inj taken
    simp only [left, staying, callsLeft, guards.1]
    omega
  · cases taken

end Dispatch

-----------------------------------------------------------------------------------------
-- What the logger has still to do
-----------------------------------------------------------------------------------------

/-- A call of `log` adds at most a line, and touches nothing else. -/
theorem AofLogger.logUnlessReplaying_size (command : Bytes) (aof : AofLogger)
    : (aof.logUnlessReplaying command).activeBuffer.length ≤ aof.activeBuffer.length + 1
      ∧ (aof.logUnlessReplaying command).flushBuffer = aof.flushBuffer := by
  simp only [logUnlessReplaying, log]
  cases aof.isReplaying <;> cases aof.running <;> simp

namespace LoggerThreads

variable {logger next : LoggerThreads}

/-- The turns of the flush thread until it has written its buffer. -/
def flushLeft (logger : LoggerThreads) : ℕ :=
  match logger.flusher with
  | .testing => 1
  | .swapping => 4
  | .writing line => logger.aof.flushBuffer.length - line + 2
  | .exited => 0

/-- What is left until the logger is shut down. A line of the active buffer is written once, by the
flush thread or by the last flush.
-/
def left (logger : LoggerThreads) : ℕ :=
  match logger.shutdownCall with
  | .uncalled => logger.flushLeft + 4 * logger.aof.activeBuffer.length + 4
  | .joining => logger.flushLeft + 4 * logger.aof.activeBuffer.length + 2
  | .flushing line => logger.aof.activeBuffer.length - line + 1
  | .returned => 0

/-- As long as the flush thread is there, `shutdown` has still to wait for it. -/
theorem flusher_left {file : Bytes} {lines : List Bytes} (faithful : logger.Faithful file lines)
    (stays : logger.flusher ≠ .exited) (call : next.shutdownCall = logger.shutdownCall)
    (less
      : next.flushLeft + 4 * next.aof.activeBuffer.length
        < logger.flushLeft + 4 * logger.aof.activeBuffer.length)
    : next.left < logger.left := by
  rcases faithful.early stays with here | here
  all_goals
    simp only [left, call, here]
    omega

/-- The flush thread leaves its loop when the flag is cleared. -/
theorem test_left {file : Bytes} {lines : List Bytes} (faithful : logger.Faithful file lines)
    (stopped : logger.aof.running = false) (taken : logger.step .test = some next)
    : next.left < logger.left := by
  simp only [step, stopped] at taken
  split at taken
  · rename_i tests
    obtain rfl := Option.some.inj taken
    apply flusher_left faithful (by simp [tests]) (by rfl)
    simp [flushLeft, tests]
  · cases taken

/-- The lines of the active buffer are to be written next. -/
theorem swap_left {file : Bytes} {lines : List Bytes} (faithful : logger.Faithful file lines)
    (taken : logger.step .swap = some next)
    : next.left < logger.left := by
  simp only [step] at taken
  split at taken
  · rename_i swaps
    obtain rfl := Option.some.inj taken
    have empty := faithful.flushed (by simp [swaps])
    apply flusher_left faithful (by simp [swaps]) (by rfl)
    simp only [flushLeft, swaps, AofLogger.swapBuffers, empty, List.length_nil]
    omega
  · cases taken

theorem writeLine_left {file : Bytes} {lines : List Bytes}
    (faithful : logger.Faithful file lines) (taken : logger.step .writeLine = some next)
    : next.left < logger.left := by
  simp only [step] at taken
  split at taken
  · rename_i line writes
    have stays : logger.flusher ≠ .exited := by simp [writes]
    split at taken
    · rename_i command found
      obtain rfl := Option.some.inj taken
      have inside := (List.getElem?_eq_some_iff.mp found).1
      apply flusher_left faithful stays (by rfl)
      simp only [flushLeft, writes, write]
      omega
    · obtain rfl := Option.some.inj taken
      apply flusher_left faithful stays (by rfl)
      simp only [flushLeft, writes]
      omega
  · cases taken

theorem shutdown_left {file : Bytes} {lines : List Bytes}
    (faithful : logger.Faithful file lines) (runs : logger.aof.running = true)
    (taken : logger.step .shutdown = some next)
    : next.left < logger.left := by
  simp only [step, runs, if_true] at taken
  obtain rfl := Option.some.inj taken
  simp only [left, faithful.running.mp runs, flushLeft]
  omega

theorem join_left (taken : logger.step .join = some next) : next.left < logger.left := by
  simp only [step] at taken
  split at taken
  · rename_i guards
    obtain rfl := Option.some.inj taken
    simp only [left, flushLeft, guards.1, guards.2]
    omega
  · cases taken

theorem flushLine_left (taken : logger.step .flushLine = some next)
    : next.left < logger.left := by
  simp only [step] at taken
  split at taken
  · rename_i line flushes
    split at taken
    · rename_i command found
      obtain rfl := Option.some.inj taken
      have inside := (List.getElem?_eq_some_iff.mp found).1
      simp only [left, flushes, write]
      omega
    · obtain rfl := Option.some.inj taken
      simp only [left, flushes]
      omega
  · cases taken

/-- A record makes at most four turns. -/
theorem log_left (early : ∀ line, logger.shutdownCall ≠ .flushing line) (command : Bytes)
    : left { logger with aof := logger.aof.logUnlessReplaying command } ≤ logger.left + 4 := by
  obtain ⟨size, same⟩ := logger.aof.logUnlessReplaying_size command
  cases call : logger.shutdownCall with
  | uncalled | joining =>
      simp only [left, flushLeft, call, same]
      omega
  | flushing line => exact absurd call (early line)
  | returned =>
      simp only [left, call]
      omega

end LoggerThreads

-----------------------------------------------------------------------------------------
-- What the server has still to do
-----------------------------------------------------------------------------------------

namespace Host

/-- The turns that the shutdown of the server waits for: the thread in `build_and_run` stops the
reactor and shuts the pool and the log down, the workers work the queue off and leave, records on
their way are appended, and the flush thread writes what it has and leaves.
-/
def Closes (host : Host) : HostAction → Prop
  | .stopReactor => host.serving = true
  | .pool (.pop _) | .pool (.post _) | .pool (.exit _) | .pool .join => True
  | .pool .shutdown => host.dispatch.pool.running = true
  | .execute .. | .append _ => True
  | .logger .shutdown => host.store.aof.running = true
  | .logger .test => host.store.aof.running = false
  | .logger .swap | .logger .writeLine | .logger .join | .logger .flushLine => True
  | .pool (.process ..) | .pool (.execute ..) | .pool .drain | .logger (.log _)
  | .advanceTick _ | .sweep _ => False

/-- A bound for the turns that this takes. -/
def closingLeft (host : Host) : ℕ :=
  (if host.serving then 1 else 0)
  + host.dispatch.left
  + 5 * host.store.pending.length
  + host.logger.left

/-- What every run keeps, as far as the shutdown needs it. -/
structure Closable (threads capacity : ℕ) (file : Bytes) (host : Host) : Prop where
  accounted : ∃ steps, Accounted threads capacity file steps host
  flagged : host.dispatch.Flagged

variable {threads capacity : ℕ} {file : Bytes} {host next : Host} {action : HostAction}

/-- By cases on the turn; only those of the pool touch its flag. -/
theorem Closable.step (closable : Closable threads capacity file host)
    (taken : host.step action = some next)
    : Closable threads capacity file next := by
  obtain ⟨⟨steps, accounted⟩, flagged⟩ := closable
  refine ⟨⟨_, accounted.step taken⟩, ?_⟩
  cases action with
  | pool action =>
      simp only [Host.step] at taken
      split at taken
      · obtain ⟨dispatch, moved, rfl⟩ := Option.map_eq_some_iff.mp taken
        exact flagged.step moved
      · cases taken
  | execute worker refusals now =>
      simp only [Host.step] at taken
      split at taken
      · cases taken
      · split at taken
        · obtain ⟨dispatch, moved, rfl⟩ := Option.map_eq_some_iff.mp taken
          exact flagged.step moved
        · cases taken
  | append thread =>
      simp only [Host.step] at taken
      split at taken
      · cases taken
      · obtain ⟨store, -, rfl⟩ := Option.map_eq_some_iff.mp taken
        exact flagged
  | advanceTick | sweep =>
      obtain ⟨store, -, rfl⟩ := Option.map_eq_some_iff.mp taken
      exact flagged
  | logger action =>
      simp only [Host.step] at taken
      split at taken
      · obtain ⟨logger, -, rfl⟩ := Option.map_eq_some_iff.mp taken
        exact flagged
      · cases taken
  | stopReactor =>
      obtain rfl := Option.some.inj taken
      exact flagged

-----------------------------------------------------------------------------------------
-- Every turn of this kind leaves less to do
-----------------------------------------------------------------------------------------

/-- A turn of the pool that touches neither the store nor the log. -/
theorem pool_closingLeft {action : DispatchAction} (closes : host.Closes (.pool action))
    (taken : host.step (.pool action) = some next)
    : next.closingLeft < host.closingLeft := by
  simp only [step] at taken
  split at taken
  · rename_i permitted
    obtain ⟨dispatch, moved, rfl⟩ := Option.map_eq_some_iff.mp taken
    have less : dispatch.left < host.dispatch.left := by
      cases action with
      | pop worker => exact Dispatch.pop_left moved
      | post worker => exact Dispatch.post_left moved
      | exit worker => exact Dispatch.exit_left moved
      | join => exact Dispatch.join_left moved
      | shutdown =>
          have allowed : !host.serving && host.dispatch.shutdownCall = .uncalled := permitted
          simp only [Bool.and_eq_true, decide_eq_true_eq] at allowed
          exact Dispatch.shutdown_left allowed.2 closes moved
      | process | execute | drain => exact closes.elim
    simp only [closingLeft, logger]
    omega
  · cases taken

/-- A task is worked off; it may make one record. -/
theorem execute_closingLeft {worker : ℕ} {refusals : Refusals} {now : Int}
    (taken : host.step (.execute worker refusals now) = some next)
    : next.closingLeft < host.closingLeft := by
  simp only [step] at taken
  split at taken
  · cases taken
  · rename_i command found
    split at taken
    · obtain ⟨dispatch, moved, rfl⟩ := Option.map_eq_some_iff.mp taken
      have less := Dispatch.execute_left moved
      have records {update : ShardRouter × Bool}
          : (host.store.update (.worker worker) now command command.logsUnderLock
              update).pending.length
            ≤ host.store.pending.length + 1 := by
        simp only [ConcurrentStore.update]
        split
        · simp
        · omega
      have record := @records (command.lockedSection refusals now host.store.router)
      simp only [closingLeft, logger, ConcurrentStore.update] at record ⊢
      omega
    · cases taken

/-- A record goes to the logger. -/
theorem append_closingLeft {thread : Thread} (taken : host.step (.append thread) = some next)
    : next.closingLeft < host.closingLeft := by
  simp only [step] at taken
  split at taken
  · cases taken
  · rename_i early
    obtain ⟨store, appended, rfl⟩ := Option.map_eq_some_iff.mp taken
    obtain ⟨front, record, back, holds, -, -, rfl⟩ := ConcurrentStore.append_of_step appended
    have logged := @LoggerThreads.log_left host.logger
      (fun line flushes => early line flushes) record.command.serialize
    simp only [logger] at logged
    simp only [closingLeft, logger, holds, List.length_append, List.length_cons]
    omega

/-- A turn of the logger, by the lemma for its action. -/
theorem logger_closingLeft {lines : List Bytes} (faithful : host.logger.Faithful file lines)
    {action : LoggerAction} (closes : host.Closes (.logger action))
    (taken : host.step (.logger action) = some next)
    : next.closingLeft < host.closingLeft := by
  simp only [step] at taken
  split at taken
  · obtain ⟨logger, moved, rfl⟩ := Option.map_eq_some_iff.mp taken
    have less : logger.left < host.logger.left := by
      cases action with
      | test => exact LoggerThreads.test_left faithful closes moved
      | swap => exact LoggerThreads.swap_left faithful moved
      | writeLine => exact LoggerThreads.writeLine_left faithful moved
      | shutdown => exact LoggerThreads.shutdown_left faithful closes moved
      | join => exact LoggerThreads.join_left moved
      | flushLine => exact LoggerThreads.flushLine_left moved
      | log command => exact closes.elim
    have moved
        : (host.withLogger logger).closingLeft
          = (if host.serving then 1 else 0) + host.dispatch.left
            + 5 * host.store.pending.length + logger.left := rfl
    rw [moved, closingLeft]
    exact Nat.add_lt_add_left less _
  · cases taken

/-- As long as the server may go on with its shutdown, the shutdown comes to an end. -/
theorem decreases_closingLeft
    : TransitionSystem.Decreases step Closes (Closable threads capacity file) closingLeft where
  preserved := fun closable taken => closable.step taken
  smaller := by
    intro host action next closable closes taken
    obtain ⟨steps, accounted⟩ := closable.accounted
    cases action with
    | pool action => exact pool_closingLeft closes taken
    | execute worker refusals now => exact execute_closingLeft taken
    | append thread => exact append_closingLeft taken
    | logger action => exact logger_closingLeft accounted.logger closes taken
    | stopReactor =>
        have serves : host.serving = true := closes
        obtain rfl := Option.some.inj taken
        simp only [closingLeft, serves, logger, if_true, Bool.false_eq_true, if_false]
        omega
    | advanceTick | sweep => exact closes.elim

-----------------------------------------------------------------------------------------
-- When no such turn is enabled, the shutdown has returned
-----------------------------------------------------------------------------------------

/-- No turn that the shutdown waits for is enabled. -/
def Stuck (host : Host) : Prop := ∀ action, host.Closes action → host.step action = none

/-- All stages of the shutdown are behind, and no record is on its way. -/
structure Closed (host : Host) : Prop where
  reactor : host.serving = false
  pool : host.dispatch.shutdownCall = .returned
  log : host.shutdownCall = .returned
  records : host.store.pending = []

namespace Stuck

theorem not_serving (stuck : host.Stuck) : host.serving = false := by
  by_contra serves
  have none := stuck .stopReactor (Bool.eq_true_of_not_eq_false serves)
  cases none

/-- The records on their way are appended, as the last flush starts after the pool is back. -/
theorem no_record (stuck : host.Stuck) (early : ∀ line, host.shutdownCall ≠ .flushing line)
    : host.store.pending = [] := by
  by_contra held
  obtain ⟨record, member⟩ := List.exists_mem_of_ne_nil _ held
  have none := stuck (.append record.thread) trivial
  simp only [step, ConcurrentStore.step, Option.map_eq_none_iff, List.find?_eq_none] at none
  exact none record member (by simp)

/-- A worker that holds a task would execute it, or post what has come of it. -/
theorem no_task (stuck : host.Stuck) (records : host.store.pending = [])
    : host.dispatch.busy = [] := by
  by_contra held
  obtain ⟨busy, member⟩ := List.exists_mem_of_ne_nil _ held
  cases response : busy.response with
  | none =>
      obtain ⟨front, found, back, cut⟩ :=
        Server.exists_extract (fun other => other.worker = busy.worker && other.response.isNone)
          member (by simp [response])
      have open' : ∀ key, host.store.locked key = false := by
        simp [ConcurrentStore.locked, records]
      have none := stuck (.execute busy.worker .none host.store.clock) trivial
      have filled := found.task.command.reply_ne_nil .none host.store.clock host.store.router
        host.store.aof
      have unlocked : found.task.command.key?.any host.store.locked = false := by
        cases found.task.command.key? <;> simp [open']
      simp [step, commandOf, cut, unlocked, Dispatch.step, filled] at none
  | some text =>
      obtain ⟨front, found, back, cut⟩ :=
        Server.exists_extract (fun other => other.worker = busy.worker && other.response.isSome)
          member (by simp [response])
      obtain ⟨-, met⟩ := Server.extract_eq_some cut
      obtain ⟨answer, done⟩ := Option.isSome_iff_exists.mp (Bool.and_eq_true_iff.mp met).2
      have none := stuck (.pool (.post busy.worker)) trivial
      simp [step, permits, ConcurrentStore.idle, records, Dispatch.step, cut, done] at none

/-- The pool is shut down: it has been called, its workers work the queue off and leave, and then
it returns.
-/
theorem pool_returned (stuck : host.Stuck) (closable : Closable threads capacity file host)
    (tasks : host.dispatch.busy = [])
    : host.dispatch.shutdownCall = .returned := by
  obtain ⟨steps, accounted⟩ := closable.accounted
  have sound := accounted.pool
  have quiet := stuck.not_serving
  cases call : host.dispatch.shutdownCall with
  | returned => rfl
  | uncalled =>
      have runs := closable.flagged.mpr call
      have none := stuck (.pool .shutdown) runs
      simp [step, permits, quiet, call, Dispatch.step, runs] at none
  | joining =>
      have stopped : host.dispatch.pool.running = false := by
        by_contra runs
        cases call.symm.trans (closable.flagged.mp (Bool.eq_true_of_not_eq_false runs))
      have waits {worker : ℕ} (below : worker < host.dispatch.pool.threadCount)
          (stays : worker ∉ host.dispatch.exited)
          : host.dispatch.waits worker = true :=
        Dispatch.waits_iff.mpr ⟨below, stays, by simp [tasks]⟩
      have left : ∀ worker < host.dispatch.pool.threadCount, worker ∈ host.dispatch.exited := by
        intro worker below
        by_contra stays
        cases queue : host.dispatch.pool.queue with
        | nil =>
            have none := stuck (.pool (.exit worker)) trivial
            simp [step, permits, Dispatch.step, waits below stays, stopped, queue] at none
        | cons task rest =>
            have none := stuck (.pool (.pop worker)) trivial
            simp [step, permits, Dispatch.step, queue, waits below stays] at none
      have none := stuck (.pool .join) trivial
      simp only [step, permits, if_true, Dispatch.step, call, true_and] at none
      rw [if_pos left] at none
      cases none

/-- The log is shut down: the flush thread writes what it has and leaves, and the last flush
writes the rest.
-/
theorem returned (stuck : host.Stuck) (closable : Closable threads capacity file host)
    (pool : host.dispatch.shutdownCall = .returned)
    : host.shutdownCall = .returned := by
  obtain ⟨steps, accounted⟩ := closable.accounted
  have faithful := accounted.logger
  have stopped : host.store.aof.running = false := by
    by_contra runs
    have set := Bool.eq_true_of_not_eq_false runs
    have none := stuck (.logger .shutdown) set
    simp [step, permitsLogger, pool, LoggerThreads.step, logger, set] at none
  cases call : host.shutdownCall with
  | returned => rfl
  | uncalled => cases stopped.symm.trans (faithful.running.mpr call)
  | flushing line =>
      have none := stuck (.logger .flushLine) trivial
      simp only [step, permitsLogger, if_true, LoggerThreads.step, logger, call] at none
      cases found : host.store.aof.activeBuffer[line]? <;> simp [found] at none
  | joining =>
      cases flusher : host.flusher with
      | testing =>
          have none := stuck (.logger .test) stopped
          simp [step, permitsLogger, LoggerThreads.step, logger, flusher] at none
      | swapping =>
          have none := stuck (.logger .swap) trivial
          simp [step, permitsLogger, LoggerThreads.step, logger, flusher] at none
      | writing line =>
          have none := stuck (.logger .writeLine) trivial
          simp only [step, permitsLogger, if_true, LoggerThreads.step, logger, flusher] at none
          cases found : host.store.aof.flushBuffer[line]? <;> simp [found] at none
      | exited =>
          have none := stuck (.logger .join) trivial
          simp [step, permitsLogger, LoggerThreads.step, logger, call, flusher] at none

/-- Before the pool is back the log runs, so that nobody who has a record or a task has to wait. -/
theorem closed (stuck : host.Stuck) (closable : Closable threads capacity file host)
    : host.Closed := by
  have pool : host.dispatch.shutdownCall = .returned := by
    obtain ⟨steps, accounted⟩ := closable.accounted
    by_contra waits
    have runs : host.store.aof.running = true := by
      by_contra stopped
      exact waits (accounted.stopped (Bool.eq_false_of_not_eq_true stopped))
    have uncalled := accounted.logger.running.mp runs
    have early (line : ℕ) : host.shutdownCall ≠ .flushing line := by
      intro flushes
      cases flushes.symm.trans uncalled
    exact waits (stuck.pool_returned closable (stuck.no_task (stuck.no_record early)))
  have log := stuck.returned closable pool
  exact ⟨stuck.not_serving, pool, log, stuck.no_record (by simp [log])⟩

end Stuck

/-- Whoever is shut down takes no turn any more. -/
theorem Closed.stuck (closed : host.Closed) (closable : Closable threads capacity file host)
    : host.Stuck := by
  obtain ⟨steps, accounted⟩ := closable.accounted
  have sound := accounted.pool
  have tasks := sound.idle closed.pool
  have gone (worker : ℕ) : host.dispatch.waits worker = false := by
    by_contra waits
    obtain ⟨below, stays, -⟩ := Dispatch.waits_iff.mp (Bool.eq_true_of_not_eq_false waits)
    exact stays (sound.returned closed.pool worker (sound.threadCount ▸ below))
  have exited : host.flusher = .exited :=
    accounted.logger.joined (by simp [logger, closed.log]) (by simp [logger, closed.log])
  intro action closes
  cases action with
  | stopReactor => cases closed.reactor.symm.trans closes
  | pool action =>
      cases action with
      | pop worker =>
          cases queue : host.dispatch.pool.queue <;> simp [step, Dispatch.step, queue, gone]
      | post worker => simp [step, Dispatch.step, tasks, Server.extract]
      | exit worker => simp [step, Dispatch.step, gone]
      | join => simp [step, Dispatch.step, closed.pool]
      | shutdown => simp [step, permits, closed.pool]
      | process | execute | drain => exact closes.elim
  | execute worker refusals now => simp [step, commandOf, tasks, Server.extract]
  | append thread => simp [step, ConcurrentStore.step, closed.log, closed.records]
  | logger action =>
      cases action with
      | shutdown =>
          have uncalled : host.shutdownCall = .uncalled := accounted.logger.running.mp closes
          cases closed.log.symm.trans uncalled
      | test | swap | writeLine => simp [step, LoggerThreads.step, logger, exited]
      | join | flushLine => simp [step, LoggerThreads.step, logger, closed.log]
      | log command => exact closes.elim
  | advanceTick | sweep => exact closes.elim

section Runs

variable {router : ShardRouter} {clock : Int} {steps more : List (Host × HostAction)}
  {later : Host}

/-- From every state that the server can get into, the turns that its shutdown waits for come to an
end, in whatever order the threads take them: there are at most as many as a bound of that state
says. None of them is enabled only when the reactor, the pool and the log have been shut down and
no record is on its way. Then no worker holds a task, nothing is left in the queue, and the file
has all records that the log has accepted. No thread waits for another one in vain.
-/
theorem closes
    (run
      : TransitionSystem.Run step (start threads capacity file router clock) steps host)
    (goesOn : TransitionSystem.Run step host more later)
    (closing : TransitionSystem.Along Closes more)
    : more.length ≤ host.closingLeft
      ∧ (later.Stuck ↔ later.Closed)
      ∧ (later.Closed
        → later.dispatch.busy = []
          ∧ (0 < threads → later.dispatch.pool.queue = [])
          ∧ later.store.aof.file
            = file
              ++ encodeLines ((logged (steps ++ more)).map fun entry => entry.2.serialize)) := by
  have initial : Closable threads capacity file (.start threads capacity file router clock) :=
    ⟨⟨[], .start threads capacity file router clock⟩, by
      simp [Dispatch.Flagged, start, Dispatch.start]⟩
  have kept {host next : Host} {action : HostAction}
      (closable : Closable threads capacity file host) (taken : host.step action = some next)
      : Closable threads capacity file next :=
    closable.step taken
  have here := run.preserves kept initial
  have there := goesOn.preserves kept here
  have bound := decreases_closingLeft.length_add_le goesOn closing here
  refine ⟨Nat.le_of_add_right_le bound, ⟨fun stuck => stuck.closed there,
    fun closed => closed.stuck there⟩, ?_⟩
  intro closed
  have accounted := accounted_of_run (run.append goesOn)
  refine ⟨accounted.pool.idle closed.pool, accounted.pool.empty closed.pool, ?_⟩
  have written : later.written = _ := accounted.logger.written_of_returned closed.log
  rw [← written]
  exact accounted.logger.file

/-- The server is stopped with a task in the queue, another one with a worker, and a record that
the sweeper has not yet appended.
-/
theorem closes_busy
    : ∃ steps host more later,
        TransitionSystem.Run step (start 1 8 [] (.construct 1024 1) 0) steps host
        ∧ TransitionSystem.Run step host more later
        ∧ more.length ≤ host.closingLeft
        ∧ later.Stuck
        ∧ later.dispatch.pool.queue = []
        ∧ later.store.aof.file
          = [] ++ encodeLines ((logged (steps ++ more)).map fun entry => entry.2.serialize) := by
  let request (line : String) (seqId : ℕ) : HostAction :=
    .pool (.process ⟨5, ascii line, seqId, ascii "10.0.0.1", 0⟩ fun _ => true)
  have traced
      : TransitionSystem.trace step (start 1 8 [] (.construct 1024 1) 0)
          [request "SET a 1" 0, request "DEL a" 1, request "DEL a" 2,
            .pool (.pop 0), .execute 0 .none 1, .append (.worker 0), .pool (.post 0),
            .pool (.pop 0), .execute 0 .none 2, .append (.worker 0), .pool (.post 0),
            request "SET b 1" 3,
            .advanceTick { buckets := fun _ => [ascii "a"], startTime := 0 }, .sweep 3,
            .pool (.pop 0),
            -- from here on the server is stopped
            .stopReactor, .pool .shutdown, .execute 0 .none 4, .pool (.post 0),
            .pool (.pop 0), .append .sweeper, .execute 0 .none 5, .append (.worker 0),
            .pool (.post 0), .pool (.exit 0), .pool .join, .logger .shutdown, .logger .test,
            .logger .join, .logger .flushLine, .logger .flushLine, .logger .flushLine,
            .logger .flushLine, .logger .flushLine]
        = some _ := rfl
  have run := TransitionSystem.run_of_trace traced
  obtain ⟨host, before, after⟩ := run.cut 15
  have closing {item : Host × HostAction} {items : List (Host × HostAction)}
      (kind : item.1.Closes item.2) (others : TransitionSystem.Along Closes items)
      : TransitionSystem.Along Closes (item :: items) :=
    List.forall_mem_cons.mpr ⟨kind, others⟩
  obtain ⟨bound, stuck, rest⟩ := closes before after
    (closing rfl <| closing rfl <| closing trivial <| closing trivial <| closing trivial
      <| closing trivial <| closing trivial <| closing trivial <| closing trivial
      <| closing trivial <| closing trivial <| closing rfl <| closing rfl <| closing trivial
      <| closing trivial <| closing trivial <| closing trivial <| closing trivial
      <| closing trivial <| List.forall_mem_nil _)
  obtain ⟨-, queue, kept⟩ := rest ⟨rfl, rfl, rfl, rfl⟩
  exact ⟨_, _, _, _, before, after, bound, stuck.mpr ⟨rfl, rfl, rfl, rfl⟩,
    queue Nat.zero_lt_one, kept⟩

end Runs

end Host

end InMemoryDB
