import InMemoryDB.Network.ReactorLoop

/-! Whether the two limits of the queue make a hysteresis: a connection that is paused at 90%
should stay so until the queue is below 70%.
-/

namespace InMemoryDB

/-- With a line in hand and the queue more than 90% full, a turn pauses, as it does at the depth
of the pipeline.
-/
theorem ConnectionState.readTurn_crowded {state : ConnectionState} {line rest : Bytes}
    {queueOver90 : Bool} (cut : Delimited.splitFirst newline state.readBuffer = some (line, rest))
    (filled : stripCr line ≠ []) (crowded : queueOver90 = true)
    : state.readTurn queueOver90 = .pause rest := by
  simp only [readTurn, cut, filled, crowded, if_false, if_true, ite_self]

namespace Server

variable {server next : Server} {client : Socket} {connection changed : Connection}

/-- A connection is held back with a line in hand, with room in its pipeline, and with the queue
more than 90% full.
-/
theorem mem_heldBack
    : client ∈ server.heldBack
      ↔ ∃ connection line rest,
          server.position = .reading client
          ∧ server.connections.lookup client = some connection
          ∧ Delimited.splitFirst newline connection.readBuffer = some (line, rest)
          ∧ stripCr line ≠ []
          ∧ connection.inFlightRequests < maxPipelineDepth
          ∧ server.queueOver90 = true := by
  constructor
  · intro held
    unfold heldBack at held
    split at held
    · rename_i own reads
      split at held
      · cases held
      · rename_i connection found
        rcases connection.readTurn_cases server.queueOver90 with
          ⟨-, turn⟩
          | ⟨line, rest, -, -, cut, ⟨-, turn⟩ | ⟨filled, full, turn⟩ | ⟨-, -, turn⟩⟩
        · simp [turn] at held
        · simp [turn] at held
        · simp only [turn] at held
          split at held
          · rename_i room
            obtain rfl := Finset.mem_singleton.mp held
            have crowded := full.resolve_left (not_le.mpr room)
            exact ⟨connection, line, rest, reads, found, cut, filled, room, crowded⟩
          · cases held
        · simp [turn] at held
    · cases held
    · cases held
    · cases held
  · intro back
    obtain ⟨connection, line, rest, reads, found, cut, filled, room, crowded⟩ := back
    have turn := ConnectionState.readTurn_crowded cut filled crowded
    simp only [heldBack, reads, found, turn, room, if_true, Finset.mem_singleton]

/-- Who is held back is paused, and the read loop leaves it. -/
theorem held_of_heldBack (held : client ∈ server.heldBack)
    (taken : server.step .readLine = some next)
    : client ∈ next.pausedReads
      ∧ next.position.client? ≠ some client
      ∧ ∃ connection,
          next.connections.lookup client = some connection
          ∧ connection.inFlightRequests < maxPipelineDepth := by
  obtain ⟨connection, line, rest, reads, found, cut, filled, room, crowded⟩ := mem_heldBack.mp held
  have turn := ConnectionState.readTurn_crowded cut filled crowded
  simp only [step, reads, found, Option.map_some, readLine, turn] at taken
  obtain rfl := Option.some.inj taken
  exact ⟨Finset.mem_insert_self .., by simp [Position.client?], _, Finmap.lookup_insert _, room⟩

end Server

namespace ReactorLoop

variable {loop next : ReactorLoop} {action : LoopAction}

/-- When a round does not find the queue below 70%, the 90% rule holds no connection. -/
def NoneHeld (loop : ReactorLoop) : LoopAction → Prop
  | .rebuild => loop.server.queueUnder70 = false → loop.held = ∅
  | .server _ | .next => True

/-- The connections that the 90% rule holds are paused, with room in their pipelines. -/
structure Holding (loop : ReactorLoop) : Prop extends Orderly loop where
  holding
    : ∀ client ∈ loop.held,
        client ∈ loop.server.pausedReads
        ∧ loop.server.position.client? ≠ some client
        ∧ ∃ connection,
            loop.server.connections.lookup client = some connection
            ∧ connection.inFlightRequests < maxPipelineDepth

theorem holding_start (threads capacity : ℕ) (store : LoggedStore) (clock : Int)
    : (start threads capacity store clock).Holding where
  toOrderly := .start threads capacity store clock
  holding client held := by simp [start] at held

namespace Holding

/-- A turn of the server keeps this. A connection that is held stays as it is, as the reactor is
not at it and does not read from it.
-/
theorem after (holding : loop.Holding) {action : Action} {server : Server}
    (taken : loop.server.step action = some server) (stays : action ≠ .unpause)
    : ∀ client ∈ (loop.after action server).held,
        client ∈ server.pausedReads
        ∧ server.position.client? ≠ some client
        ∧ ∃ connection,
            server.connections.lookup client = some connection
            ∧ connection.inFlightRequests < maxPipelineDepth := by
  intro client held
  obtain ⟨before, open'⟩ := Finset.mem_filter.mp held
  have old (held : client ∈ loop.held)
      : client ∈ server.pausedReads
        ∧ server.position.client? ≠ some client
        ∧ ∃ connection,
            server.connections.lookup client = some connection
            ∧ connection.inFlightRequests < maxPipelineDepth := by
    obtain ⟨paused, away, connection, found, room⟩ := holding.holding client held
    obtain ⟨changed, there⟩ := Option.isSome_iff_exists.mp (Finmap.lookup_isSome.mpr open')
    have none_reads : loop.server.position ≠ .reading client := by
      intro reads
      exact away (by rw [reads]; rfl)
    cases Server.handles_of_step taken stays there with
    | kept found' readBuffer received issued inFlight paused' position =>
        obtain rfl := Option.some.inj (found.symm.trans found')
        exact ⟨paused'.mpr paused, mt position.mp away, changed, there, inFlight.trans_lt room⟩
    | opened closed => cases closed.symm.trans found
    | received found' chunk calm => exact absurd paused calm
    | finished found' reads => exact absurd reads none_reads
    | skipped found' reads => exact absurd reads none_reads
    | stopped found' reads => exact absurd reads none_reads
    | issued found' reads => exact absurd reads none_reads
  cases action with
  | readLine =>
      rcases Finset.mem_union.mp before with earlier | fresh
      · exact old earlier
      · exact Server.held_of_heldBack fresh taken
  | accept | recv | process | write | hangup | drain | deliver | unpause | pop | execute | post
  | sweep => exact old before

/-- A turn keeps this unless it finds a connection held at 70% or more, by cases on the turn. -/
theorem step (holding : loop.Holding) (met : loop.NoneHeld action)
    (taken : loop.step action = some next)
    : next.Holding := by
  refine ⟨holding.toOrderly.step taken, ?_⟩
  cases takes_of_step taken with
  | server permitted moved => exact holding.after moved (stays_of_permits permitted)
  | rebuild tests =>
      intro client held
      cases under : loop.server.queueUnder70 with
      | true => simp [rebuild, under] at held
      | false => simp [rebuild, under, met under] at held
  | next => exact holding.holding

/-- With the poll set built, no connection is held and registered for reading exactly if none was
held at 70% or more: one that is held then has room, and the test lets it go.
-/
theorem disjoint_iff (holding : loop.Holding) (taken : loop.step action = some next)
    : loop.AtRebuild (fun loop => Disjoint loop.held loop.readable) action
      ↔ loop.NoneHeld action := by
  cases takes_of_step taken with
  | server | next => exact iff_of_true trivial trivial
  | rebuild tests =>
      constructor
      · intro apart under
        refine Finset.eq_empty_iff_forall_notMem.mpr fun client held => ?_
        obtain ⟨-, -, connection, found, room⟩ := holding.holding client held
        have calm : client ∉ loop.server.unpause.pausedReads := by
          intro stays
          have deep := (Server.mem_pausedReads_unpause.mp stays).2.2 connection found
          exact absurd room (not_lt.mpr deep)
        have readable : client ∈ loop.rebuild.readable := by
          refine Finset.mem_filter.mpr ⟨?_, calm⟩
          rw [Server.connections_unpause]
          exact Finmap.mem_keys.mpr (Finmap.mem_of_lookup_eq_some found)
        have still : client ∈ loop.rebuild.held := by
          simpa [rebuild, under] using held
        exact Finset.disjoint_left.mp apart still readable
      · intro none
        have empty : loop.rebuild.held = ∅ := by
          cases under : loop.server.queueUnder70 with
          | true => simp [rebuild, under]
          | false => simp [rebuild, under, none under]
        change Disjoint loop.rebuild.held loop.rebuild.readable
        rw [empty]
        exact Finset.disjoint_empty_left _

end Holding

/-- A connection that the 90% rule has paused is never registered for reading, until a round
has found the queue below 70% or the connection is closed, exactly as long as every round that
finds the queue at 70% or more finds no such connection.
-/
theorem held_not_readable_iff (threads capacity : ℕ) (store : LoggedStore) (clock : Int)
    {steps : List (ReactorLoop × LoopAction)} {loop : ReactorLoop}
    (run : TransitionSystem.Run step (start threads capacity store clock) steps loop)
    : TransitionSystem.Along (AtRebuild fun loop => Disjoint loop.held loop.readable) steps
      ↔ TransitionSystem.Along NoneHeld steps :=
  run.along_iff (fun holding taken => holding.disjoint_iff taken)
    (fun holding met taken => holding.step met taken) (holding_start threads capacity store clock)

/-- A client sends twelve lines to a pool with room for ten tasks; the eleventh finds it full. -/
def crowd : List LoopAction :=
  [.server .drain, .server .deliver, .rebuild, .server (.accept 5 (ascii "10.0.0.1")), .next,
    .server .drain, .server .deliver, .rebuild,
    .server (.recv 5 (some (List.replicate 12 (ascii "PING\n")).flatten))]
    ++ (List.replicate 10 [.server .readLine, .server .process]).flatten
    ++ [.server .readLine, .next, .server .drain, .server .deliver]

/-- Four workers take a task each before the test, and the connection may read again. -/
theorem held_not_readable_iff_crowd
    : ∃ steps loop,
        TransitionSystem.Run step (start 4 10 (.empty 1024 0) 0) steps loop
        ∧ loop.phase = .polling
        ∧ loop.held = ∅
        ∧ 5 ∈ loop.readable
        ∧ (TransitionSystem.Along (AtRebuild fun loop => Disjoint loop.held loop.readable) steps
          ↔ TransitionSystem.Along NoneHeld steps) := by
  have traced
      : TransitionSystem.trace step (start 4 10 (.empty 1024 0) 0)
          (crowd
            ++ [.server (.pop 0), .server (.pop 1), .server (.pop 2), .server (.pop 3), .rebuild])
        = some _ := rfl
  have run := TransitionSystem.run_of_trace traced
  exact ⟨_, _, run, rfl, by decide, by decide,
    held_not_readable_iff 4 10 (.empty 1024 0) 0 run⟩

/-- No task is taken, so the test finds the pool full; but the connection has ten requests in
flight and not 256, and may read again.
-/
theorem held_not_readable_fails
    : ∃ steps loop,
        TransitionSystem.Run step (start 4 10 (.empty 1024 0) 0) steps loop
        ∧ loop.phase = .polling
        ∧ loop.server.pool.queue.length = 10
        ∧ 5 ∈ loop.held
        ∧ 5 ∈ loop.readable := by
  have traced
      : TransitionSystem.trace step (start 4 10 (.empty 1024 0) 0) (crowd ++ [.rebuild])
        = some _ := rfl
  have run := TransitionSystem.run_of_trace traced
  exact ⟨_, _, run, rfl, rfl, by decide, by decide⟩

end ReactorLoop

end InMemoryDB
