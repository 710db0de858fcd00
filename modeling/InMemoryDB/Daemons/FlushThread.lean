import InMemoryDB.Daemons.AofLogger
import InMemoryDB.Library.Runs

/-! The logger with the threads around it: callers of `log`, the flush thread that swaps the
buffers and writes line by line, and the thread that shuts it down.
-/

namespace InMemoryDB

/-- Where the flush thread is: at the test of its loop, behind its wait, at a line of the buffer
that it has swapped out, or gone.
-/
inductive FlushThread where
  | testing
  | swapping
  | writing (line : ℕ)
  | exited
  deriving DecidableEq

/-- How far `shutdown` has come: not called, waiting for the flush thread with the flag cleared,
at a line of the last flush, or back.
-/
inductive ShutdownCall where
  | uncalled
  | joining
  | flushing (line : ℕ)
  | returned
  deriving DecidableEq

/-- The logger and its threads. The lines that have been written since the start are for
proofs.
-/
structure LoggerThreads where
  aof : AofLogger
  flusher : FlushThread := .testing
  shutdownCall : ShutdownCall := .uncalled
  written : List Bytes := []

/-- A turn of one thread: a call of `log`, the loop of the flush thread in its parts, and the
parts of `shutdown`. A call of `log` is one turn, as it holds the lock from its test to its
push, and what can clear the flag in between has the same effect after it.
-/
inductive LoggerAction where
  | log (command : Bytes)
  | test
  | swap
  | writeLine
  | shutdown
  | join
  | flushLine

namespace LoggerThreads

/-- A logger that has just been started on a file. -/
def start (file : Bytes) : LoggerThreads := { aof := AofLogger.start { file := file } }

/-- One line goes to the file. -/
def write (command : Bytes) (logger : LoggerThreads) : LoggerThreads :=
  { logger with
    aof := { logger.aof with file := logger.aof.file ++ encodeLines [command] }
    written := logger.written ++ [command] }

/-- One turn, if the thread can take it. The last flush holds the lock. -/
def step (logger : LoggerThreads) : LoggerAction → Option LoggerThreads
  | .log command =>
      match logger.shutdownCall with
      | .flushing _ => none
      | _ => some { logger with aof := logger.aof.log command }
  | .test =>
      if logger.flusher = .testing then
        some { logger with flusher := if logger.aof.running then .swapping else .exited }
      else none
  | .swap =>
      if logger.flusher = .swapping then
        some { logger with aof := logger.aof.swapBuffers, flusher := .writing 0 }
      else none
  | .writeLine =>
      match logger.flusher with
      | .writing line =>
          match logger.aof.flushBuffer[line]? with
          | some command => some { logger.write command with flusher := .writing (line + 1) }
          | none =>
              some
                { logger with
                  aof := { logger.aof with flushBuffer := [] }
                  flusher := .testing }
      | _ => none
  | .shutdown =>
      -- `exchange` tells a second caller that there is nothing left to do
      if logger.aof.running then
        some
          { logger with
            aof := { logger.aof with running := false }
            shutdownCall := .joining }
      else some logger
  | .join =>
      if logger.shutdownCall = .joining ∧ logger.flusher = .exited then
        some { logger with shutdownCall := .flushing 0 }
      else none
  | .flushLine =>
      match logger.shutdownCall with
      | .flushing line =>
          match logger.aof.activeBuffer[line]? with
          | some command => some { logger.write command with shutdownCall := .flushing (line + 1) }
          | none =>
              some
                { logger with
                  aof := { logger.aof with activeBuffer := [] }
                  shutdownCall := .returned }
      | _ => none

/-- The lines of the buffer that the flush thread is writing that are still to come. -/
def unwritten (logger : LoggerThreads) : List Bytes :=
  match logger.flusher with
  | .writing line => logger.aof.flushBuffer.drop line
  | _ => []

/-- The active buffer; while the last flush writes it, the lines that are still to come. -/
def waiting (logger : LoggerThreads) : List Bytes :=
  match logger.shutdownCall with
  | .flushing line => logger.aof.activeBuffer.drop line
  | _ => logger.aof.activeBuffer

/-- The commands that `log` has accepted in a run, which it does as long as it finds the flag
set.
-/
def accepted (steps : List (LoggerThreads × LoggerAction)) : List Bytes :=
  steps.filterMap fun entry =>
    match entry.2 with
    | .log command => if entry.1.aof.running then some command else none
    | _ => none

theorem accepted_append (front back : List (LoggerThreads × LoggerAction))
    : accepted (front ++ back) = accepted front ++ accepted back :=
  List.filterMap_append

/-- Only `shutdown` clears the flag, and nothing touches the replay. -/
theorem flags_of_step {logger next : LoggerThreads} {action : LoggerAction}
    (taken : logger.step action = some next)
    : next.aof.isReplaying = logger.aof.isReplaying
      ∧ (action ≠ .shutdown → next.aof.running = logger.aof.running) := by
  cases action with
  | log command =>
      simp only [step] at taken
      split at taken
      · cases taken
      · obtain rfl := Option.some.inj taken
        simp only [AofLogger.log]
        split <;> simp
  | test | swap | join =>
      simp only [step] at taken
      split at taken
      · obtain rfl := Option.some.inj taken
        exact ⟨rfl, fun _ => rfl⟩
      · cases taken
  | writeLine | flushLine =>
      simp only [step] at taken
      split at taken
      · split at taken
        all_goals
          obtain rfl := Option.some.inj taken
          exact ⟨rfl, fun _ => rfl⟩
      · cases taken
  | shutdown =>
      simp only [step] at taken
      split at taken
      all_goals
        obtain rfl := Option.some.inj taken
        exact ⟨rfl, fun other => absurd rfl other⟩

-----------------------------------------------------------------------------------------
-- A round of the flush thread
-----------------------------------------------------------------------------------------

/-- Behind a line comes the rest of its buffer. -/
theorem drop_of_getElem? {buffer : List Bytes} {line : ℕ} {command : Bytes}
    (found : buffer[line]? = some command)
    : buffer.drop line = command :: buffer.drop (line + 1) := by
  obtain ⟨inside, rfl⟩ := List.getElem?_eq_some_iff.mp found
  exact List.drop_eq_getElem_cons inside

/-- The logger when the flush thread has written the rest of its buffer. -/
def writeRest (line : ℕ) (logger : LoggerThreads) : LoggerThreads :=
  { logger with
    aof :=
      { logger.aof with
        file := logger.aof.file ++ encodeLines (logger.aof.flushBuffer.drop line)
        flushBuffer := [] }
    flusher := .testing
    written := logger.written ++ logger.aof.flushBuffer.drop line }

/-- Left to itself, the flush thread writes all that is left of its buffer; by induction on the
number of lines left.
-/
theorem run_writeRest {logger : LoggerThreads} {line left : ℕ}
    (writes : logger.flusher = .writing line)
    (count : logger.aof.flushBuffer.length - line = left)
    : ∃ steps, TransitionSystem.Run step logger steps (logger.writeRest line) := by
  induction left generalizing logger line with
  | zero =>
      have outside : logger.aof.flushBuffer.length ≤ line := by omega
      have taken : logger.step .writeLine
          = some
            { logger with aof := { logger.aof with flushBuffer := [] }, flusher := .testing } := by
        simp only [step, writes, List.getElem?_eq_none outside]
      have same : logger.writeRest line
          = { logger with aof := { logger.aof with flushBuffer := [] }, flusher := .testing } := by
        simp [writeRest, List.drop_eq_nil_of_le outside, encodeLines]
      rw [same]
      exact ⟨_, .snoc .nil taken⟩
  | succ left ih =>
      obtain ⟨command, found⟩ : ∃ command, logger.aof.flushBuffer[line]? = some command :=
        ⟨_, List.getElem?_eq_getElem (by omega)⟩
      let next : LoggerThreads := { logger.write command with flusher := .writing (line + 1) }
      have taken : logger.step .writeLine = some next := by
        simp only [step, writes, found]
        rfl
      have same : next.writeRest (line + 1) = logger.writeRest line := by
        simp [next, writeRest, write, drop_of_getElem? found, encodeLines]
      have fewer : next.aof.flushBuffer.length - (line + 1) = left := by
        change logger.aof.flushBuffer.length - (line + 1) = left
        omega
      obtain ⟨steps, later⟩ := ih (by rfl) fewer
      rw [same] at later
      exact ⟨_, later.cons taken⟩

/-- A whole round of the flush thread, with nobody else in between, is `flushRound`. -/
theorem run_flushRound {logger : LoggerThreads} (swaps : logger.flusher = .swapping)
    : ∃ steps,
        TransitionSystem.Run step logger steps
          { logger with
            aof := logger.aof.flushRound
            flusher := .testing
            written := logger.written ++ logger.aof.activeBuffer } := by
  let swapped : LoggerThreads :=
    { logger with aof := logger.aof.swapBuffers, flusher := .writing 0 }
  have taken : logger.step .swap = some swapped := by
    simp only [step, swaps, if_true]
    rfl
  obtain ⟨steps, later⟩ := @run_writeRest swapped 0 _ rfl rfl
  exact ⟨_, later.cons taken⟩

-----------------------------------------------------------------------------------------
-- What every turn keeps
-----------------------------------------------------------------------------------------

/-- The lines written, being written and waiting are those accepted; and each thread is where
the others have let it come.
-/
structure Faithful (file : Bytes) (lines : List Bytes) (logger : LoggerThreads) : Prop where
  file : logger.aof.file = file ++ encodeLines logger.written
  lines : logger.written ++ logger.unwritten ++ logger.waiting = lines
  flushed : (∀ line, logger.flusher ≠ .writing line) → logger.aof.flushBuffer = []
  running : logger.aof.running = true ↔ logger.shutdownCall = .uncalled
  exited : logger.flusher = .exited → logger.aof.running = false
  joined
    : logger.shutdownCall ≠ .uncalled
      → logger.shutdownCall ≠ .joining
      → logger.flusher = .exited
  returned : logger.shutdownCall = .returned → logger.aof.activeBuffer = []

theorem faithful_start (file : Bytes) : (start file).Faithful file [] := by
  constructor <;> simp [start, AofLogger.start, encodeLines, unwritten, waiting]

namespace Faithful

variable {file : Bytes} {lines : List Bytes} {logger next : LoggerThreads}

/-- As long as the flush thread is there, `shutdown` has not come to its flush. -/
theorem early (faithful : logger.Faithful file lines) (stays : logger.flusher ≠ .exited)
    : logger.shutdownCall = .uncalled ∨ logger.shutdownCall = .joining := by
  by_contra late
  exact stays (faithful.joined (fun uncalled => late (.inl uncalled))
    fun joining => late (.inr joining))

/-- An accepted command is the last one that waits. -/
theorem log (faithful : logger.Faithful file lines) (command : Bytes)
    : Faithful file (lines ++ accepted [(logger, .log command)])
        { logger with aof := logger.aof.log command } := by
  cases runs : logger.aof.running with
  | true =>
      have uncalled := faithful.running.mp runs
      have accepts : accepted [(logger, .log command)] = [command] := by
        simp [accepted, runs]
      have pushed : logger.aof.log command
          = { logger.aof with activeBuffer := logger.aof.activeBuffer ++ [command] } := by
        simp [AofLogger.log, runs]
      rw [accepts, pushed]
      refine { faithful with lines := ?_, returned := by simp [uncalled] }
      rw [← faithful.lines, List.append_assoc (logger.written ++ _)]
      simp [unwritten, waiting, uncalled]
  | false =>
      have refuses : accepted [(logger, .log command)] = [] := by
        simp [accepted, runs]
      have kept : logger.aof.log command = logger.aof := by
        simp [AofLogger.log, runs]
      rw [refuses, kept, List.append_nil]
      exact faithful

/-- The flush thread goes into its loop as long as the flag is set. -/
theorem test (faithful : logger.Faithful file lines) (tests : logger.flusher = .testing)
    : Faithful file lines
        { logger with flusher := if logger.aof.running then .swapping else .exited } := by
  have empty := faithful.flushed (by simp [tests])
  have early := faithful.early (by simp [tests])
  have nothing : logger.unwritten = [] := by simp [unwritten, tests]
  refine { faithful with lines := ?_, flushed := fun _ => empty, exited := ?_, joined := ?_ }
  · rw [← faithful.lines, nothing]
    cases logger.aof.running <;> rfl
  · intro gone
    by_contra runs
    simp [runs] at gone
  · intro called later
    exact absurd early (not_or.mpr ⟨called, later⟩)

/-- The buffers swap when the one for the flush thread is empty. -/
theorem swap (faithful : logger.Faithful file lines) (swaps : logger.flusher = .swapping)
    : Faithful file lines { logger with aof := logger.aof.swapBuffers, flusher := .writing 0 } := by
  have empty := faithful.flushed (by simp [swaps])
  have early := faithful.early (by simp [swaps])
  have nothing : logger.unwritten = [] := by simp [unwritten, swaps]
  have all : logger.waiting = logger.aof.activeBuffer := by
    rcases early with call | call <;> simp [waiting, call]
  refine { faithful with
    lines := ?_, flushed := by simp, exited := by simp, joined := ?_, returned := ?_ }
  · rw [← faithful.lines, nothing, all]
    rcases early with call | call <;> simp [unwritten, waiting, call, AofLogger.swapBuffers, empty]
  · intro called later
    exact absurd early (not_or.mpr ⟨called, later⟩)
  · intro back
    rcases early with call | call <;> cases call.symm.trans back

/-- A turn of the flush thread's writing: it writes the next line, or clears the buffer. -/
theorem writeLine (faithful : logger.Faithful file lines)
    (taken : logger.step .writeLine = some next)
    : next.Faithful file lines := by
  simp only [step] at taken
  split at taken
  · rename_i line writes
    have early := faithful.early (by simp [writes])
    have late {changed : ShutdownCall} (same : changed = logger.shutdownCall)
        (called : changed ≠ .uncalled) (later : changed ≠ .joining)
        : False :=
      not_or.mpr ⟨same ▸ called, same ▸ later⟩ early
    have rest : logger.unwritten = logger.aof.flushBuffer.drop line := by
      simp only [unwritten, writes]
    have whole := faithful.lines
    split at taken
    · rename_i command found
      obtain rfl := Option.some.inj taken
      rw [rest, drop_of_getElem? found] at whole
      refine { faithful with
        file := ?_, lines := ?_, flushed := by simp, exited := by simp, joined := ?_ }
      · simp only [write, faithful.file, AofLogger.encodeLines_append, List.append_assoc]
      · rw [← whole]
        simp [write, unwritten, waiting]
      · exact fun called later => (late rfl called later).elim
    · rename_i done
      obtain rfl := Option.some.inj taken
      rw [rest, List.drop_eq_nil_of_le (List.getElem?_eq_none_iff.mp done)] at whole
      refine { faithful with
        lines := ?_, flushed := fun _ => rfl, exited := by simp, joined := ?_ }
      · rw [← whole]
        rfl
      · exact fun called later => (late rfl called later).elim
  · cases taken

/-- Clearing the flag moves no line. -/
theorem shutdown (faithful : logger.Faithful file lines) (runs : logger.aof.running = true)
    : Faithful file lines
        { logger with
          aof := { logger.aof with running := false }
          shutdownCall := .joining } := by
  have uncalled := faithful.running.mp runs
  refine { faithful with
    lines := ?_, running := by simp, exited := fun _ => rfl, joined := ?_, returned := by simp }
  · rw [← faithful.lines]
    simp [unwritten, waiting, uncalled]
  · exact fun _ later => absurd rfl later

/-- The last flush starts with all of the active buffer. -/
theorem join (faithful : logger.Faithful file lines) (joins : logger.shutdownCall = .joining)
    (gone : logger.flusher = .exited)
    : Faithful file lines { logger with shutdownCall := .flushing 0 } := by
  have stopped := faithful.exited gone
  refine { faithful with
    lines := ?_, running := by simp [stopped], joined := fun _ _ => gone, returned := by simp }
  rw [← faithful.lines]
  simp [unwritten, waiting, joins]

/-- A turn of the last flush: it writes the next line, or clears the buffer and returns. -/
theorem flushLine (faithful : logger.Faithful file lines)
    (taken : logger.step .flushLine = some next)
    : next.Faithful file lines := by
  simp only [step] at taken
  split at taken
  · rename_i line flushes
    have gone := faithful.joined (by simp [flushes]) (by simp [flushes])
    have stopped := faithful.exited gone
    have rest : logger.waiting = logger.aof.activeBuffer.drop line := by
      simp only [waiting, flushes]
    have nothing : logger.unwritten = [] := by simp only [unwritten, gone]
    have whole := faithful.lines
    split at taken
    · rename_i command found
      obtain rfl := Option.some.inj taken
      rw [rest, nothing, drop_of_getElem? found] at whole
      refine { faithful with
        file := ?_, lines := ?_, running := by simp [write, stopped], joined := fun _ _ => gone,
        returned := by simp }
      · simp only [write, faithful.file, AofLogger.encodeLines_append, List.append_assoc]
      · rw [← whole]
        simp [write, unwritten, waiting, gone]
    · rename_i done
      obtain rfl := Option.some.inj taken
      rw [rest, nothing, List.drop_eq_nil_of_le (List.getElem?_eq_none_iff.mp done)] at whole
      refine { faithful with
        lines := ?_, running := by simp [stopped], joined := fun _ _ => gone,
        returned := fun _ => rfl }
      rw [← whole]
      simp [unwritten, waiting, gone]
  · cases taken

/-- Every turn keeps the account, by the lemma for its action. -/
theorem step {action : LoggerAction} (faithful : logger.Faithful file lines)
    (taken : logger.step action = some next)
    : next.Faithful file (lines ++ accepted [(logger, action)]) := by
  cases action with
  | log command =>
      simp only [LoggerThreads.step] at taken
      split at taken
      · cases taken
      · obtain rfl := Option.some.inj taken
        exact faithful.log command
  | writeLine => exact (List.append_nil lines).symm ▸ faithful.writeLine taken
  | flushLine => exact (List.append_nil lines).symm ▸ faithful.flushLine taken
  | test =>
      simp only [LoggerThreads.step] at taken
      split at taken
      · rename_i tests
        obtain rfl := Option.some.inj taken
        exact (List.append_nil lines).symm ▸ faithful.test tests
      · cases taken
  | swap =>
      simp only [LoggerThreads.step] at taken
      split at taken
      · rename_i swaps
        obtain rfl := Option.some.inj taken
        exact (List.append_nil lines).symm ▸ faithful.swap swaps
      · cases taken
  | shutdown =>
      simp only [LoggerThreads.step] at taken
      split at taken
      · rename_i runs
        obtain rfl := Option.some.inj taken
        exact (List.append_nil lines).symm ▸ faithful.shutdown runs
      · obtain rfl := Option.some.inj taken
        exact (List.append_nil lines).symm ▸ faithful
  | join =>
      simp only [LoggerThreads.step] at taken
      split at taken
      · rename_i joins
        obtain rfl := Option.some.inj taken
        exact (List.append_nil lines).symm ▸ faithful.join joins.1 joins.2
      · cases taken

/-- When `shutdown` has returned, nothing is left in a buffer. -/
theorem written_of_returned (faithful : logger.Faithful file lines)
    (back : logger.shutdownCall = .returned)
    : logger.written = lines := by
  have whole := faithful.lines
  have gone := faithful.joined (by simp [back]) (by simp [back])
  have nothing : logger.unwritten = [] := by simp only [unwritten, gone]
  have empty : logger.waiting = [] := by
    simp only [waiting, back]
    exact faithful.returned back
  rwa [nothing, empty, List.append_nil, List.append_nil] at whole

end Faithful

/-- The account holds after every run, by induction on the run. -/
theorem faithful_of_run {file : Bytes} {logger : LoggerThreads}
    {steps : List (LoggerThreads × LoggerAction)}
    (run : TransitionSystem.Run step (start file) steps logger)
    : logger.Faithful file (accepted steps) := by
  induction run with
  | nil => exact faithful_start file
  | snoc _ taken ih =>
      rw [accepted_append]
      exact ih.step taken

/-- At every moment the lines written since the start, those left of the buffer being flushed
and those in the active buffer are the commands accepted so far, each once and in order; so
the file holds a prefix of them, and when `shutdown` has returned all.
-/
theorem faithful_fifo (file : Bytes) {logger : LoggerThreads}
    {steps : List (LoggerThreads × LoggerAction)}
    (run : TransitionSystem.Run step (start file) steps logger)
    : logger.aof.file = file ++ encodeLines logger.written
      ∧ logger.written ++ logger.unwritten ++ logger.waiting = accepted steps
      ∧ logger.written <+: accepted steps
      ∧ (logger.shutdownCall = .returned → logger.written = accepted steps) := by
  have faithful := faithful_of_run run
  have whole := faithful.lines
  refine ⟨faithful.file, whole, ?_, faithful.written_of_returned⟩
  rw [← whole, List.append_assoc]
  exact List.prefix_append _ _

/-- Two lines are logged around a swap, and the logger is shut down while the flush thread is
at the first.
-/
theorem faithful_fifo_two
    : ∃ steps logger,
        TransitionSystem.Run step (start []) steps logger
        ∧ logger.shutdownCall = .returned
        ∧ logger.written = accepted steps
        ∧ accepted steps = [ascii "SET a 1 9", ascii "DEL a"] := by
  have traced
      : TransitionSystem.trace step (start [])
          [.log (ascii "SET a 1 9"), .test, .swap, .log (ascii "DEL a"), .shutdown, .writeLine,
            .log (ascii "DEL b"), .writeLine, .test, .join, .flushLine, .flushLine]
        = some _ := rfl
  have run := TransitionSystem.run_of_trace traced
  exact ⟨_, _, run, rfl, (faithful_fifo [] run).2.2.2 rfl, rfl⟩

end LoggerThreads

end InMemoryDB
