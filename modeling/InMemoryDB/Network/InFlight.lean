import InMemoryDB.Network.Changes

/-! The requests of a connection in flight: the count, the two numbers and the buffer of early
responses agree in every run.
-/

namespace InMemoryDB

namespace Connection

/-- The lines that were issued are counted, and no more than the depth allows are in flight. -/
structure Bounded (connection : Connection) : Prop where
  numbered : connection.nextSeqIssue = connection.issued.length
  depth : connection.inFlightRequests ≤ maxPipelineDepth

theorem kept_bounded : Kept (fun _ => True) Bounded where
  opened ip id := ⟨rfl, Nat.zero_le _⟩
  received chunk bounded := ⟨bounded.numbered, bounded.depth⟩
  consumed rest bounded := ⟨bounded.numbered, bounded.depth⟩
  issued := by
    intro connection line rest room bounded
    constructor
    · simp [ConnectionState.issue, bounded.numbered]
    · exact room
  written := by
    intro connection count bounded
    obtain ⟨number, -⟩ := ConnectionState.input_written count connection.toConnectionState
    have depth := ConnectionState.inFlightRequests_written count connection.toConnectionState
    exact ⟨number.trans bounded.numbered, depth.trans_le bounded.depth⟩
  placed := by
    intro connection result _ bounded
    obtain ⟨number, -⟩ := ConnectionState.input_place result connection.toConnectionState
    have depth := ConnectionState.inFlightRequests_place result connection.toConnectionState
    exact ⟨number.trans bounded.numbered, depth.trans bounded.depth⟩

end Connection

namespace ConnectionState

namespace Carries

variable {arrived : ℕ → Option Bytes} {sent : Bytes} {out : List Bytes}
  {state : ConnectionState}

/-- The responses that have left are as many as the number that is due. -/
theorem out_eq (carries : state.Carries arrived sent out)
    : out.length = state.nextSeqExpected
      ∧ ∀ {number response}, out[number]? = some response → arrived number = some response := by
  have flushed : out.map some = (List.range state.nextSeqExpected).map arrived :=
    carries.represents.out
  constructor
  · simpa using congrArg List.length flushed
  · intro number response there
    have left := congrArg (fun items => items[number]?) flushed
    simp only [List.getElem?_map, there, Option.map_some] at left
    obtain ⟨index, position, there⟩ := Option.map_eq_some_iff.mp left.symm
    obtain ⟨before, position⟩ := List.getElem?_eq_some_iff.mp position
    rwa [← position, List.getElem_range] at there

/-- A response that waits for its turn has a number between the one that is due and the next. -/
theorem between_of_held (carries : state.Carries arrived sent out)
    (settled : (state.buffer out).Settled) {number : ℕ} (held : number ∈ state.outOfOrderBuf)
    : state.nextSeqExpected < number ∧ number < state.nextSeqIssue := by
  obtain ⟨response, found⟩ := Finmap.mem_iff.mp held
  have there : arrived number = some response := carries.represents.arrived_of_held found
  have kept := (carries.represents.held number).symm.trans found
  have late : ¬ number < state.nextSeqExpected := by
    intro before
    exact absurd ((if_pos before).symm.trans kept) (by simp)
  have undue : number ≠ state.nextSeqExpected := by
    intro same
    rw [same] at found
    exact absurd (settled.symm.trans found) (by simp)
  exact ⟨by omega, carries.issued number (by rw [there]; rfl)⟩

/-- As long as a response is due, a request is in flight. -/
theorem inFlight_pos (carries : state.Carries arrived sent out)
    (due : state.nextSeqExpected ∈ state.outOfOrderBuf)
    : 0 < state.inFlightRequests := by
  obtain ⟨response, found⟩ := Finmap.mem_iff.mp due
  have there : arrived state.nextSeqExpected = some response :=
    carries.represents.arrived_of_held found
  have issued := carries.issued state.nextSeqExpected (by rw [there]; rfl)
  have inFlight := carries.inFlight
  omega

end Carries

end ConnectionState

namespace Server

/-- The flush for a result, after some of its turns. -/
def flushing (result : TaskResult) (turns : ℕ) (connection : Connection) : ConnectionState :=
  { connection.toConnectionState with
    outOfOrderBuf := connection.outOfOrderBuf.insert result.sequenceId result.response }.flush
      turns

theorem bounded_of_run {threadCount capacity : ℕ} {store : LoggedStore} {clock : Int}
    {steps : List (Server × Action)} {server : Server}
    (run : TransitionSystem.Run step (startWith threadCount capacity store clock) steps server)
    : server.AllConnections Connection.Bounded := by
  apply run.preserves
  · exact fun all taken => all.step Connection.kept_bounded (fun _ _ => trivial) taken
  · intro client connection found
    simp [startWith, start] at found

/-- On a connection whose handle was free of older requests when it was accepted, the requests
in flight are those between the number that is due and the next number, and the issued lines
whose responses have not been moved to the write buffer; they are never more than the depth. A
response that waits for its turn is one of theirs, and whenever one is moved there is a request
in flight to take off.
-/
theorem in_flight_exact (threadCount capacity : ℕ) (store : LoggedStore) (clock : Int) (id : ℕ)
    {steps : List (Server × Action)} {server : Server}
    (run : TransitionSystem.Run step (startWith threadCount capacity store clock) steps server)
    (free : TransitionSystem.Along (AcceptsFree id) steps) (client : Socket)
    {connection : Connection} (found : server.connections.lookup client = some connection)
    (same : connection.id = id)
    : connection.inFlightRequests + connection.nextSeqExpected = connection.nextSeqIssue
      ∧ (∃ moved : List Bytes,
          connection.sent ++ connection.writeBuffer = moved.flatten
          ∧ (∀ number response,
              moved[number]? = some response
              → responsesTo id number server.pool.posted = [response])
          ∧ moved.length + connection.inFlightRequests = connection.issued.length)
      ∧ connection.inFlightRequests ≤ maxPipelineDepth
      ∧ (∀ number ∈ connection.outOfOrderBuf,
          connection.nextSeqExpected < number ∧ number < connection.nextSeqIssue)
      ∧ ∀ result rest turns,
          server.position = .draining (result :: rest)
          → result.clientFd = client
          → (flushing result turns connection).nextSeqExpected
              ∈ (flushing result turns connection).outOfOrderBuf
          → 0 < (flushing result turns connection).inFlightRequests := by
  subst same
  obtain ⟨tagged, orderly⟩ := orderlyAt_of_run run free
  have orderly := orderly client connection found rfl
  have bounded := bounded_of_run run client connection found
  obtain ⟨arrived, out, carried, settled, delivered⟩ := orderly.carried
  obtain ⟨count, left⟩ := carried.out_eq
  refine ⟨carried.inFlight, ⟨out, carried.output, ?_, ?_⟩, bounded.depth, ?_, ?_⟩
  · exact fun number response there => orderly.responsesTo_of_arrived delivered (left there)
  · rw [count, Nat.add_comm, carried.inFlight, bounded.numbered]
  · exact fun number held => carried.between_of_held settled held
  · intro result rest turns drains addressed due
    have first : server.traffic.undelivered = result :: (rest ++ server.pool.completionQueue) := by
      simp [traffic, drains, Position.drained]
    have asked : result.ticket ∈ server.traffic.outstanding := by
      simp [Traffic.outstanding, first]
    have own : result.origin = connection.id := orderly.own result.ticket asked addressed
    obtain ⟨fresh, issued⟩ := orderly.fresh first own delivered
    have filled : result.response ≠ [] := tagged.filled result (by simp [first])
    obtain ⟨flushed, -, carries⟩ := (carried.insert fresh issued filled).flush turns
    exact carries.inFlight_pos due

/-- A client asks twice, and only the second response is back: it waits, and both requests are
in flight.
-/
theorem in_flight_exact_second
    : ∃ steps server connection,
        TransitionSystem.Run step (startWith 2 10 (.empty 1024 0) 0) steps server
        ∧ server.connections.lookup 5 = some connection
        ∧ connection.inFlightRequests = 2
        ∧ connection.nextSeqIssue = 2
        ∧ connection.outOfOrderBuf.keys = {1}
        ∧ connection.inFlightRequests + connection.nextSeqExpected = connection.nextSeqIssue := by
  have traced
      : TransitionSystem.trace step (startWith 2 10 (.empty 1024 0) 0)
          [.accept 5 [], .recv 5 (some (ascii "GET a\nPING\n")), .readLine, .process, .readLine,
            .process, .readLine, .pop 0, .pop 1, .execute 1 0 .none, .post 1, .drain, .deliver]
        = some _ := rfl
  have run := TransitionSystem.run_of_trace traced
  have exact := in_flight_exact 2 10 (.empty 1024 0) 0 0 run
    (acceptsFree_of_handle (acceptsFreeHandle_of_first rfl rfl) 0) 5 rfl rfl
  exact ⟨_, _, _, run, rfl, rfl, rfl, rfl, exact.1⟩

end Server

end InMemoryDB
