import InMemoryDB.Core.CommandFactory
import InMemoryDB.Core.WorkerPool
import InMemoryDB.Library.Reassembly

/-! One connection: how its lines are cut from what it receives, and how the responses to
them get into its write buffer in the order of their numbers.
-/

namespace InMemoryDB

def maxPipelineDepth : ℕ := 256

structure ConnectionState where
  readBuffer : Bytes := []
  writeBuffer : Bytes := []
  writePending : Bool := false
  clientIp : Bytes
  nextSeqIssue : ℕ := 0
  nextSeqExpected : ℕ := 0
  outOfOrderBuf : Finmap fun _ : ℕ => Bytes := ∅
  inFlightRequests : ℕ := 0

/-- A connection with what proofs say about it: its number among all that were accepted,
the bytes it has received and sent, the lines issued from it, and the connections whose
results have been placed in it.
-/
structure Connection extends ConnectionState where
  id : ℕ
  received : Bytes := []
  sent : Bytes := []
  issued : List Bytes := []
  placed : List ℕ := []

/-- The removal of a carriage return at the end of a line. -/
def stripCr (line : Bytes) : Bytes :=
  if line.getLast? = some 13 then line.dropLast else line

/-- What a turn of the loop in `handle_read` comes to: no line is left, an empty line is
skipped, a limit is reached with a line in hand, or the line is issued.
-/
inductive ReadTurn where
  | done
  | skip (rest : Bytes)
  | pause (rest : Bytes)
  | issue (line rest : Bytes)

namespace ConnectionState

/-- The turn takes its line out of the buffer before it looks at the two limits. -/
def readTurn (queueOver90 : Bool) (state : ConnectionState) : ReadTurn :=
  match Delimited.splitFirst newline state.readBuffer with
  | none => .done
  | some (line, rest) =>
      let line := stripCr line
      if line = [] then .skip rest
      else if state.inFlightRequests ≥ maxPipelineDepth then .pause rest
      else if queueOver90 then .pause rest
      else .issue line rest

/-- The bytes that `send` has taken leave the write buffer. -/
def written (sent : ℕ) (state : ConnectionState) : ConnectionState :=
  if state.writeBuffer = [] then { state with writePending := false }
  else
    { state with
      writeBuffer := state.writeBuffer.drop sent
      writePending :=
        if state.writeBuffer.drop sent = [] then false else state.writePending }

/-- The loop that flushes contiguous numbers to the write buffer, with a bound for its
turns.
-/
def flush : ℕ → ConnectionState → ConnectionState
  | 0, state => state
  | fuel + 1, state =>
      match state.outOfOrderBuf.lookup state.nextSeqExpected with
      | none => state
      | some response =>
          flush fuel
            { state with
              writeBuffer := state.writeBuffer ++ response
              outOfOrderBuf := state.outOfOrderBuf.erase state.nextSeqExpected
              nextSeqExpected := state.nextSeqExpected + 1
              inFlightRequests :=
                if state.inFlightRequests > 0 then state.inFlightRequests - 1
                else state.inFlightRequests
              writePending := true }

/-- One result of `drain_completion_queue`. Every turn of the flush takes a response out of
the buffer, so it has no more turns than there are responses.
-/
def place (result : TaskResult) (state : ConnectionState) : ConnectionState :=
  let buffered := state.outOfOrderBuf.insert result.sequenceId result.response
  flush buffered.keys.card { state with outOfOrderBuf := buffered }

/-- The flush neither issues nor reads anything, by induction on the fuel. -/
theorem input_flush (fuel : ℕ) (state : ConnectionState)
    : (state.flush fuel).nextSeqIssue = state.nextSeqIssue
      ∧ (state.flush fuel).readBuffer = state.readBuffer := by
  induction fuel generalizing state with
  | zero => exact ⟨rfl, rfl⟩
  | succ fuel ih =>
      unfold flush
      split
      · exact ⟨rfl, rfl⟩
      · exact ih _

theorem input_place (result : TaskResult) (state : ConnectionState)
    : (state.place result).nextSeqIssue = state.nextSeqIssue
      ∧ (state.place result).readBuffer = state.readBuffer :=
  input_flush _ _

/-- A flush takes requests out of flight, by induction on the fuel. -/
theorem inFlightRequests_flush (fuel : ℕ) (state : ConnectionState)
    : (state.flush fuel).inFlightRequests ≤ state.inFlightRequests := by
  induction fuel generalizing state with
  | zero => exact le_rfl
  | succ fuel ih =>
      unfold flush
      split
      · exact le_rfl
      · apply (ih _).trans
        dsimp only
        split <;> omega

theorem inFlightRequests_place (result : TaskResult) (state : ConnectionState)
    : (state.place result).inFlightRequests ≤ state.inFlightRequests :=
  inFlightRequests_flush _ _

/-- The number that is stamped on the next line. -/
def issue (rest : Bytes) (state : ConnectionState) : ConnectionState :=
  { state with
    readBuffer := rest
    nextSeqIssue := state.nextSeqIssue + 1
    inFlightRequests := state.inFlightRequests + 1 }

theorem input_written (count : ℕ) (state : ConnectionState)
    : (state.written count).nextSeqIssue = state.nextSeqIssue
      ∧ (state.written count).readBuffer = state.readBuffer := by
  unfold written
  split <;> exact ⟨rfl, rfl⟩

theorem inFlightRequests_written (count : ℕ) (state : ConnectionState)
    : (state.written count).inFlightRequests = state.inFlightRequests := by
  unfold written
  split <;> rfl

-----------------------------------------------------------------------------------------
-- A connection carries the responses that have arrived
-----------------------------------------------------------------------------------------

/-- The reassembly buffer of a connection whose flushed responses are known. -/
def buffer (out : List Bytes) (state : ConnectionState) : Reassembly.Buffer Bytes :=
  ⟨state.nextSeqExpected, state.outOfOrderBuf, out⟩

/-- A connection whose responses so far have arrived by their numbers: the flushed ones are
those that were sent and those in the write buffer, and everything else is counted right.
-/
structure Carries (arrived : ℕ → Option Bytes) (sent : Bytes) (out : List Bytes)
    (state : ConnectionState)
    : Prop where
  represents : (state.buffer out).Represents arrived
  output : sent ++ state.writeBuffer = out.flatten
  pending : state.writePending = true ↔ state.writeBuffer ≠ []
  inFlight : state.inFlightRequests + state.nextSeqExpected = state.nextSeqIssue
  issued : ∀ number, (arrived number).isSome = true → number < state.nextSeqIssue
  filled : ∀ number response, arrived number = some response → response ≠ []

namespace Carries

variable {arrived : ℕ → Option Bytes} {sent : Bytes} {out : List Bytes}
  {state : ConnectionState}

/-- A turn of the flush moves the response that is due. -/
theorem advance (carries : state.Carries arrived sent out) {response : Bytes}
    (found : state.outOfOrderBuf.lookup state.nextSeqExpected = some response)
    : Carries arrived sent (out ++ [response])
        { state with
          writeBuffer := state.writeBuffer ++ response
          outOfOrderBuf := state.outOfOrderBuf.erase state.nextSeqExpected
          nextSeqExpected := state.nextSeqExpected + 1
          inFlightRequests :=
            if state.inFlightRequests > 0 then state.inFlightRequests - 1
            else state.inFlightRequests
          writePending := true } := by
  have due : arrived state.nextSeqExpected = some response :=
    carries.represents.arrived_of_held found
  have issued := carries.issued state.nextSeqExpected (by rw [due]; rfl)
  have inFlight := carries.inFlight
  have filled := carries.filled _ _ due
  constructor
  case represents => exact carries.represents.advance found
  case output =>
    rw [List.flatten_append, ← carries.output]
    simp
  case pending => simp [filled]
  case inFlight =>
    dsimp only
    split <;> omega
  case issued => exact carries.issued
  case filled => exact carries.filled

/-- The flush is a release of the reassembly buffer, by induction on the fuel. -/
theorem flush (carries : state.Carries arrived sent out) (fuel : ℕ)
    : ∃ flushed,
        (state.flush fuel).buffer flushed = (state.buffer out).release fuel
        ∧ (state.flush fuel).Carries arrived sent flushed := by
  induction fuel generalizing state out with
  | zero => exact ⟨out, rfl, carries⟩
  | succ fuel ih =>
      cases found : state.outOfOrderBuf.lookup state.nextSeqExpected with
      | none =>
          refine ⟨out, ?_, ?_⟩
          · simp only [ConnectionState.flush, Reassembly.Buffer.release, buffer, found]
          · simpa only [ConnectionState.flush, found] using carries
      | some response =>
          obtain ⟨flushed, same, done⟩ := ih (carries.advance found)
          refine ⟨flushed, ?_, ?_⟩
          · simpa only [ConnectionState.flush, Reassembly.Buffer.release, buffer, found] using same
          · simpa only [ConnectionState.flush, found] using done

/-- A result that has not arrived before is held. -/
theorem insert (carries : state.Carries arrived sent out) {result : TaskResult}
    (fresh : arrived result.sequenceId = none)
    (issued : result.sequenceId < state.nextSeqIssue) (filled : result.response ≠ [])
    : Carries (Function.update arrived result.sequenceId (some result.response)) sent out
        { state with
          outOfOrderBuf := state.outOfOrderBuf.insert result.sequenceId result.response } := by
  refine { carries with
    represents := carries.represents.insert fresh _
    issued := ?_
    filled := ?_ }
  · intro number there
    by_cases same : number = result.sequenceId
    · exact same ▸ issued
    · exact carries.issued number (by rwa [Function.update_of_ne same] at there)
  · intro number response there
    by_cases same : number = result.sequenceId
    · subst number
      rw [Function.update_self] at there
      exact Option.some.inj there ▸ filled
    · exact carries.filled number response (by rwa [Function.update_of_ne same] at there)

/-- A result that has not arrived before is placed; then nothing that is due is held back. -/
theorem place (carries : state.Carries arrived sent out) {result : TaskResult}
    (fresh : arrived result.sequenceId = none)
    (issued : result.sequenceId < state.nextSeqIssue) (filled : result.response ≠ [])
    : ∃ flushed,
        (state.place result).Carries
          (Function.update arrived result.sequenceId (some result.response)) sent flushed
        ∧ ((state.place result).buffer flushed).Settled := by
  obtain ⟨flushed, same, done⟩ := (carries.insert fresh issued filled).flush
    (state.outOfOrderBuf.insert result.sequenceId result.response).keys.card
  refine ⟨flushed, done, ?_⟩
  rw [ConnectionState.place, same]
  exact Reassembly.Buffer.settled_release le_rfl

/-- What is sent leaves the write buffer. -/
theorem written (carries : state.Carries arrived sent out) (count : ℕ)
    : (state.written count).Carries arrived (sent ++ state.writeBuffer.take count) out := by
  unfold ConnectionState.written
  split
  · rename_i empty
    refine { carries with output := ?_, pending := ?_ }
    · simpa only [empty, List.take_nil, List.append_nil] using carries.output
    · simp [empty]
  · rename_i filled
    refine { carries with output := ?_, pending := ?_ }
    · rw [List.append_assoc, List.take_append_drop]
      exact carries.output
    · have pending := carries.pending.mpr filled
      dsimp only
      split
      · rename_i all
        simp [all]
      · rename_i rest
        exact ⟨fun _ => rest, fun _ => pending⟩

theorem settled_written (count : ℕ) (settled : (state.buffer out).Settled)
    : ((state.written count).buffer out).Settled := by
  unfold ConnectionState.written
  split <;> exact settled

/-- A line more is in flight. -/
theorem issue (carries : state.Carries arrived sent out) (rest : Bytes)
    : (state.issue rest).Carries arrived sent out := by
  have inFlight := carries.inFlight
  refine { carries with inFlight := ?_, issued := ?_ }
  · simp only [ConnectionState.issue]
    omega
  · exact fun number there => Nat.lt_succ_of_lt (carries.issued number there)

end Carries

/-- A new connection carries nothing. -/
theorem carries_new (ip : Bytes)
    : Carries (fun _ => none) [] [] { clientIp := ip } where
  represents := Reassembly.Buffer.represents_empty
  output := rfl
  pending := by simp
  inFlight := rfl
  issued := by simp
  filled := by simp

end ConnectionState

end InMemoryDB
