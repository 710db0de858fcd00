import InMemoryDB.Network.Stranding

/-! Whether a connection that has reached the depth of the pipeline stays paused as long as it is
at this depth: it does not, since a round that finds the queue short lets all connections read.
-/

namespace InMemoryDB

namespace Server

variable {server next : Server} {action : Action} {client : Socket}

/-- A connection has as many requests in flight as the depth allows, or more. -/
def Full (client : Socket) (server : Server) : Prop :=
  ∃ connection,
    server.connections.lookup client = some connection
    ∧ maxPipelineDepth ≤ connection.inFlightRequests

/-- The read loop has a line of the connection in hand, and the depth is reached. -/
def StopsFull (client : Socket) (server : Server) : Prop :=
  ∃ connection line rest,
    server.position = .reading client
    ∧ server.connections.lookup client = some connection
    ∧ Delimited.splitFirst newline connection.readBuffer = some (line, rest)
    ∧ stripCr line ≠ []
    ∧ maxPipelineDepth ≤ connection.inFlightRequests

/-- No connection is paused while the read loop is at it. -/
def ReadsCalm (server : Server) : Prop :=
  ∀ client, server.position.client? = some client → client ∉ server.pausedReads

/-- Only a turn of the read loop brings the reactor back from it. -/
theorem readLine_of_idle (taken : server.step action = some next)
    (reads : server.position = .reading client) (idle : next.position = .idle)
    : action = .readLine := by
  cases takes_of_step taken with
  | readLine => rfl
  | accepted here | received here | disconnected _ here | process here | drain here | drained here
  | deliver here => cases here.symm.trans reads
  | rejected | written | unpause | pop | execute | post | sweep => cases reads.symm.trans idle

/-- A connection that is paused and full was so before a turn, unless the turn has paused it. -/
theorem Handles.paused_full {changed : Connection}
    (handles : server.Handles next client changed) (calm : server.ReadsCalm)
    (paused : client ∈ next.pausedReads)
    (deep : maxPipelineDepth ≤ changed.inFlightRequests)
    : client ∈ server.pausedReads ∧ server.Full client
      ∨ next.position = .idle ∧ server.StopsFull client := by
  have reading (reads : server.position = .reading client) : client ∉ server.pausedReads :=
    calm client (by rw [reads]; rfl)
  cases handles with
  | kept found readBuffer received issued inFlight same position =>
      exact .inl ⟨same.mp paused, _, found, deep.trans inFlight⟩
  | opened closed same => exact absurd deep (show ¬ maxPipelineDepth ≤ 0 by decide)
  | received found chunk calm same => exact absurd (same ▸ paused) calm
  | finished found reads none same => exact absurd (same ▸ paused) (reading reads)
  | skipped found reads cut absent empty same => exact absurd (same ▸ paused) (reading reads)
  | issued found reads cut absent filled same => exact absurd (same ▸ paused) (reading reads)
  | stopped found reads cut absent filled same idle =>
      exact .inr ⟨idle, _, _, _, reads, found, Delimited.splitFirst_eq_some.mpr ⟨cut, absent⟩,
        filled, deep⟩

/-- A connection that was paused and is full stays paused. -/
theorem Handles.stays_paused {changed : Connection}
    (handles : server.Handles next client changed) (calm : server.ReadsCalm)
    (paused : client ∈ server.pausedReads)
    (deep : maxPipelineDepth ≤ changed.inFlightRequests)
    : client ∈ next.pausedReads := by
  have reading (reads : server.position = .reading client) : client ∉ server.pausedReads :=
    calm client (by rw [reads]; rfl)
  cases handles with
  | kept found readBuffer received issued inFlight same position => exact same.mpr paused
  | opened closed same => exact absurd deep (show ¬ maxPipelineDepth ≤ 0 by decide)
  | received found chunk calm same => exact absurd paused calm
  | finished found reads none same => exact same.symm ▸ paused
  | skipped found reads cut absent empty same => exact absurd paused (reading reads)
  | issued found reads cut absent filled same => exact absurd paused (reading reads)
  | stopped found reads cut absent filled same idle =>
      rw [same]
      exact Finset.mem_insert_self ..

/-- The turn that stops a full connection pauses it. -/
theorem StopsFull.pauses (stops : server.StopsFull client)
    (taken : server.step .readLine = some next)
    : client ∈ next.pausedReads := by
  obtain ⟨connection, line, rest, reads, found, cut, filled, deep⟩ := stops
  have turn : connection.readTurn server.queueOver90 = .pause rest := by
    simp [ConnectionState.readTurn, cut, filled, deep]
  simp only [step, reads, found, Option.map_some, readLine, turn] at taken
  obtain rfl := Option.some.inj taken
  exact Finset.mem_insert_self ..

/-- The reactor only gets to a connection that is not paused, by cases on the turn. -/
theorem ReadsCalm.step (calm : server.ReadsCalm) (taken : server.step action = some next)
    (stays : action ≠ .unpause)
    : next.ReadsCalm := by
  cases takes_of_step taken with
  | @received client chunk connection idle found =>
      intro other here
      have own : client ∉ server.pausedReads := calm_of_recv taken
      obtain rfl := Option.some.inj here
      exact own
  | @readLine client connection reads found =>
      have own : client ∉ server.pausedReads := calm client (by rw [reads]; rfl)
      unfold readLine
      split
      · rintro other ⟨⟩
      · exact calm
      · rintro other ⟨⟩
      · intro other here
        obtain rfl := Option.some.inj here
        exact own
  | @process request processes =>
      intro other here
      exact calm other (by rw [processes]; exact here)
  | disconnected client idle =>
      intro other here
      have nowhere : server.position.client? = some other := here
      rw [idle] at nowhere
      cases nowhere
  | deliver =>
      unfold deliver
      split
      · rintro other ⟨⟩
      · rintro other ⟨⟩
  | drain | drained => rintro other ⟨⟩
  | unpause => exact absurd rfl stays
  | accepted | rejected | written | pop | execute | post | sweep => exact calm

end Server

namespace ReactorLoop

variable {loop next : ReactorLoop} {action : LoopAction}
  {steps : List (ReactorLoop × LoopAction)}

/-- The depth has stopped a connection in a turn of the read loop, and ever since it has had as
many requests in flight.
-/
def StillFull (client : Socket) (steps : List (ReactorLoop × LoopAction)) (loop : ReactorLoop)
    : Prop :=
  ∃ front stopped back,
    steps = front ++ (stopped, .server .readLine) :: back
    ∧ stopped.server.StopsFull client
    ∧ (∀ entry ∈ back, entry.1.server.Full client)
    ∧ loop.server.Full client

/-- With the poll set built, no connection that is still full is registered for reading. -/
def FullNotReadable (steps : List (ReactorLoop × LoopAction)) (loop : ReactorLoop)
    : LoopAction → Prop
  | .rebuild => ∀ client, StillFull client steps loop → client ∉ loop.rebuild.readable
  | .server _ | .next => True

/-- A round that finds the queue below 70% finds no connection that is paused and full. -/
def NoneFull (loop : ReactorLoop) : LoopAction → Prop
  | .rebuild =>
      loop.server.queueUnder70 = true
      → ∀ client ∈ loop.server.pausedReads, ¬ loop.server.Full client
  | .server _ | .next => True

/-- A connection is still full after a turn if it was before, or the turn has stopped it. -/
theorem stillFull_snoc {client : Socket}
    : StillFull client (steps ++ [(loop, action)]) next
      ↔ (StillFull client steps loop
          ∨ action = .server .readLine ∧ loop.server.StopsFull client)
        ∧ next.server.Full client := by
  constructor
  · rintro ⟨front, stopped, back, same, stops, since, full⟩
    refine ⟨?_, full⟩
    rcases TransitionSystem.split_snoc same with ⟨-, here, -⟩ | ⟨others, rfl, rfl⟩
    · obtain ⟨rfl, rfl⟩ := Prod.mk.inj here
      exact .inr ⟨rfl, stops⟩
    · obtain ⟨before, now⟩ := List.forall_mem_append.mp since
      exact .inl ⟨front, stopped, others, rfl, stops, before, now _ List.mem_cons_self⟩
  · rintro ⟨⟨front, stopped, back, rfl, stops, since, now⟩ | ⟨rfl, stops⟩, full⟩
    · refine ⟨front, stopped, back ++ [(loop, action)], by simp, stops, ?_, full⟩
      exact List.forall_mem_append.mpr ⟨since, List.forall_mem_singleton.mpr now⟩
    · exact ⟨steps, loop, [], rfl, stops, by simp, full⟩

/-- The connections that are paused and full are those that are still full since the depth has
stopped them.
-/
structure Deep (steps : List (ReactorLoop × LoopAction)) (loop : ReactorLoop) : Prop
    extends Orderly loop where
  calm : loop.server.ReadsCalm
  still : ∀ client ∈ loop.server.pausedReads, loop.server.Full client → StillFull client steps loop
  paused : ∀ client, StillFull client steps loop → client ∈ loop.server.pausedReads

theorem deep_start (threads capacity : ℕ) (store : LoggedStore) (clock : Int)
    : Deep [] (start threads capacity store clock) where
  toOrderly := .start threads capacity store clock
  calm client here := by cases here
  still client member := by simp [start, Server.start] at member
  paused client still := by
    obtain ⟨front, stopped, back, same, -⟩ := still
    simp at same

namespace Deep

/-- A turn of the server keeps this. -/
theorem after (deep : Deep steps loop) {action : Action} {server : Server}
    (moved : loop.server.step action = some server) (stays : action ≠ .unpause)
    (orderly : (loop.after action server).Orderly)
    : Deep (steps ++ [(loop, .server action)]) (loop.after action server) := by
  refine ⟨orderly, deep.calm.step moved stays, ?_, ?_⟩
  · intro client paused full
    obtain ⟨changed, there, depth⟩ := full
    have handles := Server.handles_of_step moved stays there
    refine stillFull_snoc.mpr ⟨?_, changed, there, depth⟩
    rcases handles.paused_full deep.calm paused depth with
      ⟨before, full⟩ | ⟨idle, stops⟩
    · exact .inl (deep.still client before full)
    · obtain ⟨connection, line, rest, reads, -⟩ := id stops
      exact .inr ⟨congrArg _ (Server.readLine_of_idle moved reads idle), stops⟩
  · intro client still
    obtain ⟨before, changed, there, depth⟩ := stillFull_snoc.mp still
    rcases before with since | ⟨same, stops⟩
    · have handles := Server.handles_of_step moved stays there
      exact handles.stays_paused deep.calm (deep.paused client since) depth
    · obtain rfl := LoopAction.server.inj same
      exact stops.pauses moved

/-- Who is still full stays paused in a round that finds the queue at 70% or more. -/
theorem stays (deep : Deep steps loop) (met : loop.NoneFull .rebuild) {client : Socket}
    (since : StillFull client steps loop)
    : client ∈ loop.server.unpause.pausedReads := by
  have paused := deep.paused client since
  obtain ⟨-, -, -, -, -, -, full⟩ := id since
  refine Server.mem_pausedReads_unpause.mpr ⟨paused, ?_, ?_⟩
  · cases under : loop.server.queueUnder70 with
    | true => exact absurd full (met under client paused)
    | false => rfl
  · intro connection found
    obtain ⟨known, there, depth⟩ := full
    obtain rfl := Option.some.inj (there.symm.trans found)
    exact depth

/-- A test of the queue keeps this, unless it lets a connection read that is paused and full. -/
theorem rebuild (deep : Deep steps loop) (met : loop.NoneFull .rebuild)
    (orderly : loop.rebuild.Orderly)
    : Deep (steps ++ [(loop, .rebuild)]) loop.rebuild := by
  have same (client : Socket) : loop.rebuild.server.Full client ↔ loop.server.Full client := by
    unfold Server.Full
    rw [show loop.rebuild.server.connections = loop.server.connections from
      loop.server.connections_unpause]
  refine ⟨orderly, ?_, ?_, ?_⟩
  · intro client here paused
    rw [show loop.rebuild.server.position = loop.server.position from
      loop.server.position_unpause] at here
    exact deep.calm client here (Server.mem_pausedReads_unpause.mp paused).1
  · intro client paused full
    have before := (Server.mem_pausedReads_unpause.mp paused).1
    exact stillFull_snoc.mpr ⟨.inl (deep.still client before ((same client).mp full)), full⟩
  · intro client still
    obtain ⟨before, full⟩ := stillFull_snoc.mp still
    rcases before with since | ⟨⟨⟩, -⟩
    exact deep.stays met since

/-- Every turn keeps this that meets the condition, by cases on the turn. -/
theorem step (deep : Deep steps loop) (met : loop.NoneFull action)
    (taken : loop.step action = some next)
    : Deep (steps ++ [(loop, action)]) next := by
  have orderly := deep.toOrderly.step taken
  cases takes_of_step taken with
  | server permitted moved => exact deep.after moved (stays_of_permits permitted) orderly
  | rebuild tests => exact deep.rebuild met orderly
  | next idle =>
      refine ⟨orderly, deep.calm, ?_, ?_⟩
      · intro client paused full
        exact stillFull_snoc.mpr ⟨.inl (deep.still client paused full), full⟩
      · intro client still
        rcases (stillFull_snoc.mp still).1 with since | ⟨⟨⟩, -⟩
        exact deep.paused client since

/-- With the poll set built, no connection that is still full is registered exactly if no round
below 70% has found one paused.
-/
theorem fullNotReadable_iff (deep : Deep steps loop) (taken : loop.step action = some next)
    : FullNotReadable steps loop action ↔ loop.NoneFull action := by
  cases takes_of_step taken with
  | server | next => exact iff_of_true trivial trivial
  | rebuild tests =>
      constructor
      · intro none under client paused full
        refine none client (deep.still client paused full) (Finset.mem_filter.mpr ⟨?_, ?_⟩)
        · obtain ⟨connection, found, -⟩ := full
          rw [Server.connections_unpause]
          exact Finmap.mem_keys.mpr (Finmap.mem_of_lookup_eq_some found)
        · intro stays
          cases (Server.mem_pausedReads_unpause.mp stays).2.1.symm.trans under
      · intro met client since readable
        exact (Finset.mem_filter.mp readable).2 (deep.stays met since)

end Deep

/-- A connection that the depth has paused is not registered for reading as long as it has as
many requests in flight, exactly as long as no round that finds the queue below 70% finds a
paused connection with as many.
-/
theorem full_not_readable_iff (threads capacity : ℕ) (store : LoggedStore) (clock : Int)
    {steps : List (ReactorLoop × LoopAction)} {loop : ReactorLoop}
    (run : TransitionSystem.Run step (start threads capacity store clock) steps loop)
    : TransitionSystem.AlongHistory FullNotReadable steps
      ↔ TransitionSystem.Along NoneFull steps :=
  run.alongHistory_iff (fun deep taken => deep.fullNotReadable_iff taken)
    (fun deep met taken => deep.step met taken) (deep_start threads capacity store clock)

/-- A client asks once and is registered for reading in every round. -/
theorem full_not_readable_iff_once
    : ∃ steps loop,
        TransitionSystem.Run step (start 1 10000 (.empty 1024 0) 0) steps loop
        ∧ loop.phase = .polling
        ∧ 5 ∈ loop.readable
        ∧ (TransitionSystem.AlongHistory FullNotReadable steps
          ↔ TransitionSystem.Along NoneFull steps) := by
  have traced
      : TransitionSystem.trace step (start 1 10000 (.empty 1024 0) 0)
          [.server .drain, .server .deliver, .rebuild,
            .server (.accept 5 (ascii "10.0.0.1")), .next,
            .server .drain, .server .deliver, .rebuild,
            .server (.recv 5 (some (ascii "PING\n"))), .server .readLine, .server .process,
            .server .readLine, .next,
            .server .drain, .server .deliver, .rebuild]
        = some _ := rfl
  have run := TransitionSystem.run_of_trace traced
  exact ⟨_, _, run, rfl, by decide, full_not_readable_iff 1 10000 (.empty 1024 0) 0 run⟩

/-- A client sends 257 commands at once and no worker takes one. The last one pauses the
connection with 256 requests in flight; the queue is far below 70% of its capacity, and the next
round registers the connection for reading with all of them still in flight.
-/
theorem full_not_readable_fails
    : ∃ steps loop,
        TransitionSystem.Run step (start 1 10000 (.empty 1024 0) 0) steps loop
        ∧ loop.phase = .polling
        ∧ StillFull 5 steps loop
        ∧ 5 ∈ loop.readable
        ∧ ¬ TransitionSystem.AlongHistory FullNotReadable steps := by
  have fits : (Server.repeated (ascii "PING") 256 ++ ascii "PING\n").length ≤ 4096 := by
    rw [List.length_append, Server.length_repeated]
    decide
  have one : Server.places (ascii "PING") = 1 := by decide
  obtain ⟨front, full, connection, run, phase, reads, found, buffer, -, depth, queue, size,
      answers⟩ :=
    exists_flooded (by decide) (by decide) (by decide) (ascii "PING\n") fits
  obtain ⟨stopped, ended, drained, pauses, ends, drains, left, same, draining, position, kept,
      pool⟩ :=
    @run_paused (ascii "PING") [] _ _ (by decide) (by decide) phase reads found
      (buffer.trans (by decide)) depth
  rw [answers one] at position
  let tested := drained.after .deliver { drained.server with position := .idle }
  have delivers : drained.step (.server .deliver) = some tested := by
    simp [step, permits, draining, Server.step, position, tested]
  have rebuilds : tested.step .rebuild = some tested.rebuild := rfl
  let before := front ++ (full, .server .readLine)
    :: [(stopped, .next), (ended, .server .drain), (drained, .server .deliver)]
  have whole : TransitionSystem.Run step (start 1 10000 (.empty 1024 0) 0)
      (before ++ [(tested, .rebuild)]) tested.rebuild := by
    simpa [before] using ((((run.snoc pauses).snoc ends).snoc drains).snoc delivers).snoc rebuilds
  have stops : full.server.StopsFull 5 :=
    ⟨connection, ascii "PING", [], reads, found,
      Delimited.splitFirst_eq_some.mpr ⟨buffer.trans (by decide), by decide⟩, by decide, depth.ge⟩
  have stillFull : stopped.server.Full 5 := ⟨_, left, depth.ge⟩
  have stillFull' : drained.server.Full 5 := by
    unfold Server.Full
    rw [kept]
    exact stillFull
  have since : StillFull 5 before tested := by
    refine ⟨front, full, _, rfl, stops, ?_, stillFull'⟩
    simp only [List.forall_mem_cons, List.not_mem_nil, false_implies, implies_true, and_true, same]
    exact ⟨stillFull, stillFull, stillFull'⟩
  have under : tested.server.queueUnder70 = true := by
    change decide (drained.server.pool.queue.length * 10
      < drained.server.pool.maxQueueSize * 7) = true
    simp [pool, queue, size, one]
  have readable : 5 ∈ tested.rebuild.readable := by
    refine Finset.mem_filter.mpr ⟨?_, ?_⟩
    · obtain ⟨known, there, -⟩ := stillFull'
      rw [Server.connections_unpause]
      exact Finmap.mem_keys.mpr (Finmap.mem_of_lookup_eq_some there)
    · intro stays
      cases (Server.mem_pausedReads_unpause.mp stays).2.1.symm.trans under
  have stillFull'' : tested.rebuild.server.Full 5 := by
    unfold Server.Full
    rw [show tested.rebuild.server.connections = drained.server.connections from
      tested.server.connections_unpause]
    exact stillFull'
  refine ⟨_, _, whole, rfl, stillFull_snoc.mpr ⟨.inl since, stillFull''⟩, readable, ?_⟩
  intro claim
  exact claim before tested .rebuild [] rfl 5 since readable

end ReactorLoop

end InMemoryDB
