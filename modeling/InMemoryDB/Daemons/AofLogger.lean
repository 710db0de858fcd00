import InMemoryDB.Memory.VariantType

/-! The append-only log: two buffers in memory and the file they are written to. -/

namespace InMemoryDB

def newline : UInt8 := 10

/-- Lines as they stand in the file, each followed by a newline. -/
def encodeLines (lines : List Bytes) : Bytes := lines.flatMap (· ++ [newline])

structure AofLogger where
  running : Bool := false
  isReplaying : Bool := false
  activeBuffer : List Bytes := []
  flushBuffer : List Bytes := []
  file : Bytes := []
  deriving DecidableEq

namespace AofLogger

def log (command : Bytes) (aof : AofLogger) : AofLogger :=
  if aof.running then { aof with activeBuffer := aof.activeBuffer ++ [command] } else aof

/-- The guard that every writer puts in front of `log`. -/
def logUnlessReplaying (command : Bytes) (aof : AofLogger) : AofLogger :=
  if !aof.isReplaying then aof.log command else aof

def setReplaying (replaying : Bool) (aof : AofLogger) : AofLogger :=
  { aof with isReplaying := replaying }

/-- The file is opened for appending, so what it holds stays. -/
def start (aof : AofLogger) : AofLogger := { aof with running := true }

/-- The flush thread takes the filled buffer and leaves the empty one for writers. -/
def swapBuffers (aof : AofLogger) : AofLogger :=
  { aof with activeBuffer := aof.flushBuffer, flushBuffer := aof.activeBuffer }

/-- `write_buffer_to_disk` for the buffer that the flush thread has taken. -/
def writeFlushBuffer (aof : AofLogger) : AofLogger :=
  { aof with file := aof.file ++ encodeLines aof.flushBuffer, flushBuffer := [] }

/-- `flush`: the same for the active buffer. -/
def flush (aof : AofLogger) : AofLogger :=
  { aof with file := aof.file ++ encodeLines aof.activeBuffer, activeBuffer := [] }

/-- One round of the flush thread's loop. -/
def flushRound (aof : AofLogger) : AofLogger := aof.swapBuffers.writeFlushBuffer

/-- A shutdown with the flush thread between two rounds. -/
def shutdown (aof : AofLogger) : AofLogger :=
  if !aof.running then aof else { aof with running := false }.flush

/-- All that the log has taken, in the order in which it reaches the file. -/
def content (aof : AofLogger) : Bytes :=
  aof.file ++ encodeLines aof.flushBuffer ++ encodeLines aof.activeBuffer

-----------------------------------------------------------------------------------------
-- A running log outside replay, which the flush thread has not left half way
-----------------------------------------------------------------------------------------

/-- The log as commands meet it while the server runs. -/
structure Ready (aof : AofLogger) : Prop where
  running : aof.running = true
  live : aof.isReplaying = false
  flushed : aof.flushBuffer = []

theorem encodeLines_append (front back : List Bytes)
    : encodeLines (front ++ back) = encodeLines front ++ encodeLines back :=
  List.flatMap_append

/-- A logged command is one more line at the end. -/
theorem content_log {aof : AofLogger} (ready : aof.Ready) (command : Bytes)
    : (aof.logUnlessReplaying command).content = aof.content ++ encodeLines [command] := by
  simp [logUnlessReplaying, log, content, ready.running, ready.live, encodeLines_append]

theorem Ready.log {aof : AofLogger} (ready : aof.Ready) (command : Bytes)
    : (aof.logUnlessReplaying command).Ready := by
  constructor <;> simp [logUnlessReplaying, AofLogger.log, ready.running, ready.live, ready.flushed]

/-- A round of the flush thread moves lines to the file and loses none. -/
theorem content_flushRound {aof : AofLogger} (ready : aof.Ready)
    : aof.flushRound.content = aof.content := by
  simp [flushRound, swapBuffers, writeFlushBuffer, content, ready.flushed, encodeLines]

theorem Ready.flushRound {aof : AofLogger} (ready : aof.Ready) : aof.flushRound.Ready := by
  constructor <;>
    simp [AofLogger.flushRound, swapBuffers, writeFlushBuffer, ready.running, ready.live,
      ready.flushed]

/-- A shutdown leaves everything the log has taken in the file. -/
theorem file_shutdown {aof : AofLogger} (ready : aof.Ready)
    : aof.shutdown.file = aof.content := by
  simp [shutdown, flush, content, ready.running, ready.flushed, encodeLines]

/-- While the log is replayed, no command adds to it. -/
theorem logUnlessReplaying_of_replaying {aof : AofLogger}
    (replaying : aof.isReplaying = true) (command : Bytes)
    : aof.logUnlessReplaying command = aof := by
  simp [logUnlessReplaying, replaying]

end AofLogger

end InMemoryDB
