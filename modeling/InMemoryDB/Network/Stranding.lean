import InMemoryDB.Network.ReactorLoop

/-! Whether a line that has arrived can be left in a buffer while the server waits for more: it
can, as soon as a paused connection may read again.
-/

namespace InMemoryDB

namespace Server

/-- No end of a line is in the buffer of a connection that is not paused. -/
def NoneStranded (server : Server) : Prop :=
  ∀ client connection,
    server.connections.lookup client = some connection
    → client ∉ server.pausedReads
    → newline ∉ connection.readBuffer

/-- Of a connection that is not paused every complete line received has been issued, and none is
in the buffer.
-/
def ReadOut (server : Server) : Prop :=
  ∀ client connection,
    server.connections.lookup client = some connection
    → client ∉ server.pausedReads
    → newline ∉ connection.readBuffer ∧ connection.issued = linesOf connection.received

/-- The test of the queue lets a paused connection read again. -/
def Resumes (server : Server) (client : Socket) (connection : Connection) : Prop :=
  server.connections.lookup client = some connection
  ∧ client ∈ server.pausedReads
  ∧ (server.queueUnder70 = true ∨ connection.inFlightRequests < maxPipelineDepth)

variable {server next : Server} {client : Socket} {connection changed : Connection}

/-- Who is not paused after the test was not before, or resumes. -/
theorem resumes_of_unpause (found : server.connections.lookup client = some connection)
    (calm : client ∉ server.unpause.pausedReads) (paused : client ∈ server.pausedReads)
    : server.Resumes client connection := by
  refine ⟨found, paused, ?_⟩
  by_contra stays
  obtain ⟨crowded, deep⟩ := not_or.mp stays
  refine calm (mem_pausedReads_unpause.mpr ⟨paused, by simpa using crowded, ?_⟩)
  intro other there
  obtain rfl := Option.some.inj (found.symm.trans there)
  exact not_lt.mp deep

theorem Resumes.calm (resumes : server.Resumes client connection)
    : client ∉ server.unpause.pausedReads := by
  obtain ⟨found, -, free⟩ := resumes
  intro paused
  obtain ⟨-, crowded, deep⟩ := mem_pausedReads_unpause.mp paused
  rcases free with under | room
  · cases crowded.symm.trans under
  · exact absurd (deep connection found) (not_le.mpr room)

/-- Behind the read loop no end of a line is left, unless the loop has paused the connection. -/
theorem Handles.readUp (handles : server.Handles next client changed)
    (before
      : ∀ connection,
          server.connections.lookup client = some connection
          → client ∉ server.pausedReads
          → server.position.client? ≠ some client
          → newline ∉ connection.readBuffer)
    (calm : client ∉ next.pausedReads) (away : next.position.client? ≠ some client)
    : newline ∉ changed.readBuffer := by
  cases handles with
  | kept found readBuffer received issued inFlight paused position =>
      rw [readBuffer]
      exact before _ found (mt paused.mpr calm) (mt position.mpr away)
  | opened => exact List.not_mem_nil
  | finished found reads none => exact none
  | stopped found reads cut absent filled paused =>
      rw [paused] at calm
      exact absurd (Finset.mem_insert_self ..) calm
  | received found chunk calm' paused position => exact absurd position away
  | skipped found reads cut absent empty paused position => exact absurd position away
  | issued found reads cut absent filled paused position => exact absurd position away

/-- A connection has lost a line if it is paused, and none if it is not. -/
def Counts (server : Server) (client : Socket) (connection : Connection) : Prop :=
  ∃ dropped, connection.Conserves dropped ∧ (client ∈ server.pausedReads ↔ 0 < dropped)

/-- Only a pause drops a line, by cases on the turn. -/
theorem Handles.counts (handles : server.Handles next client changed)
    (among : server.PausedOpen)
    (before
      : ∀ connection,
          server.connections.lookup client = some connection → server.Counts client connection)
    : next.Counts client changed := by
  cases handles with
  | kept found readBuffer received issued inFlight paused position =>
      obtain ⟨dropped, conserves, lost⟩ := before _ found
      exact ⟨dropped, conserves.of_same received readBuffer issued, paused.trans lost⟩
  | opened closed paused =>
      refine ⟨0, .accept _ _, iff_of_false ?_ (lt_irrefl 0)⟩
      rw [paused]
      intro member
      exact Finmap.lookup_eq_none.mp closed (among client member)
  | received found chunk calm paused =>
      obtain ⟨dropped, conserves, lost⟩ := before _ found
      refine ⟨dropped, conserves.receive chunk (by rfl) (by rfl) (by rfl), ?_⟩
      rwa [paused]
  | finished found reads none paused =>
      obtain ⟨dropped, conserves, lost⟩ := before _ found
      refine ⟨dropped, conserves, ?_⟩
      rwa [paused]
  | skipped found reads cut absent empty paused =>
      obtain ⟨dropped, conserves, lost⟩ := before _ found
      refine ⟨dropped, conserves.consume cut absent (by rfl) (by rfl) (.inl ⟨empty, by rfl, rfl⟩),
        ?_⟩
      rwa [paused]
  | stopped found reads cut absent filled paused =>
      obtain ⟨dropped, conserves, -⟩ := before _ found
      refine ⟨dropped + 1,
        conserves.consume cut absent (by rfl) (by rfl) (.inr (.inl ⟨filled, by rfl, rfl⟩)),
        iff_of_true ?_ (Nat.succ_pos dropped)⟩
      rw [paused]
      exact Finset.mem_insert_self ..
  | issued found reads cut absent filled paused =>
      obtain ⟨dropped, conserves, lost⟩ := before _ found
      refine ⟨dropped,
        conserves.consume cut absent (by rfl) (by rfl) (.inr (.inr ⟨filled, by rfl, rfl⟩)), ?_⟩
      rwa [paused]

end Server

namespace ReactorLoop

variable {loop next : ReactorLoop} {action : LoopAction}

-----------------------------------------------------------------------------------------
-- Connections that read again
-----------------------------------------------------------------------------------------

/-- The turn lets a connection read again that was paused. -/
def Releases (loop : ReactorLoop) : LoopAction → Prop
  | .rebuild => ∃ client connection, loop.server.Resumes client connection
  | .server _ | .next => False

/-- The turn lets a connection read again that still has a complete line in its buffer. -/
def Strands (loop : ReactorLoop) : LoopAction → Prop
  | .rebuild =>
      ∃ client connection,
        loop.server.Resumes client connection ∧ newline ∈ connection.readBuffer
  | .server _ | .next => False

/-- Outside the read loop no end of a line is in the buffer of a connection that reads. -/
structure ReadUp (loop : ReactorLoop) : Prop extends Orderly loop where
  readUp
    : ∀ client connection,
        loop.server.connections.lookup client = some connection
        → client ∉ loop.server.pausedReads
        → loop.server.position.client? ≠ some client
        → newline ∉ connection.readBuffer

/-- And the connections that have lost a line are those that are paused. -/
structure Counted (loop : ReactorLoop) : Prop extends ReadUp loop where
  counts
    : ∀ client connection,
        loop.server.connections.lookup client = some connection
        → loop.server.Counts client connection

theorem counted_start (threads capacity : ℕ) (store : LoggedStore) (clock : Int)
    : (start threads capacity store clock).Counted where
  toOrderly := .start threads capacity store clock
  readUp client connection found := by simp [start, Server.start] at found
  counts client connection found := by simp [start, Server.start] at found

/-- A turn keeps this unless it strands a line, by cases on the turn. -/
theorem ReadUp.step (readUp : loop.ReadUp) (met : ¬ loop.Strands action)
    (taken : loop.step action = some next)
    : next.ReadUp := by
  refine ⟨readUp.toOrderly.step taken, ?_⟩
  cases takes_of_step taken with
  | server permitted moved =>
      intro client connection there calm away
      have handles := Server.handles_of_step moved (stays_of_permits permitted) there
      exact handles.readUp (readUp.readUp client) calm away
  | rebuild tests =>
      intro client connection there calm away
      have found : loop.server.connections.lookup client = some connection :=
        loop.server.connections_unpause ▸ there
      by_cases paused : client ∈ loop.server.pausedReads
      · intro left
        exact met ⟨client, connection, Server.resumes_of_unpause found calm paused, left⟩
      · exact readUp.readUp client connection found paused
          (loop.server.position_unpause ▸ away)
  | next => exact readUp.readUp

/-- A turn keeps this unless it lets a connection read again, by cases on the turn. -/
theorem Counted.step (counted : loop.Counted) (met : ¬ loop.Releases action)
    (taken : loop.step action = some next)
    : next.Counted := by
  have quiet : ¬ loop.Strands action := by
    intro strands
    cases action with
    | rebuild =>
        obtain ⟨client, connection, resumes, -⟩ := strands
        exact met ⟨client, connection, resumes⟩
    | server | next => exact strands
  refine ⟨counted.toReadUp.step quiet taken, ?_⟩
  cases takes_of_step taken with
  | server permitted moved =>
      intro client connection there
      have handles := Server.handles_of_step moved (stays_of_permits permitted) there
      exact handles.counts counted.among (counted.counts client)
  | rebuild tests =>
      intro client connection there
      have found : loop.server.connections.lookup client = some connection :=
        loop.server.connections_unpause ▸ there
      obtain ⟨dropped, conserves, lost⟩ := counted.counts client connection found
      refine ⟨dropped, conserves, lost.symm.trans ?_ |>.symm⟩
      refine ⟨fun paused => ?_, fun stays => (Server.mem_pausedReads_unpause.mp stays).1⟩
      by_contra calm
      exact met ⟨client, connection, Server.resumes_of_unpause found calm paused⟩
  | next => exact counted.counts

-----------------------------------------------------------------------------------------
-- Whole runs
-----------------------------------------------------------------------------------------

/-- With the poll set built, no line is stranded exactly if the turn has stranded none. -/
theorem ReadUp.not_strands_iff (readUp : loop.ReadUp) (taken : loop.step action = some next)
    : loop.AtRebuild (fun loop => loop.server.NoneStranded) action ↔ ¬ loop.Strands action := by
  cases takes_of_step taken with
  | server | next => exact iff_of_true trivial id
  | rebuild tests =>
      constructor
      · intro none strands
        obtain ⟨client, connection, resumes, left⟩ := strands
        exact none client connection (loop.server.connections_unpause.symm ▸ resumes.1)
          resumes.calm left
      · intro quiet client connection there calm
        have nowhere := readUp.nowhere (by simp [tests])
        apply (readUp.step quiet taken).readUp client connection there calm
        change loop.server.unpause.position.client? ≠ _
        rw [Server.position_unpause, nowhere]
        simp

/-- With the poll set built, all lines are issued exactly if no connection reads again. -/
theorem Counted.not_releases_iff (counted : loop.Counted) (taken : loop.step action = some next)
    : loop.AtRebuild (fun loop => loop.server.ReadOut) action ↔ ¬ loop.Releases action := by
  cases takes_of_step taken with
  | server | next => exact iff_of_true trivial id
  | rebuild tests =>
      constructor
      · intro readOut releases
        obtain ⟨client, connection, resumes⟩ := releases
        have found := resumes.1
        obtain ⟨none, issued⟩ := readOut client connection
          (loop.server.connections_unpause.symm ▸ found) resumes.calm
        obtain ⟨dropped, conserves, lost⟩ := counted.counts client connection found
        have kept : dropped = 0 := by
          apply conserves.iff.mp
          rw [linesOf_of_notMem none, List.append_nil, issued]
        exact absurd kept (lost.mp resumes.2.1).ne'
      · intro quiet client connection there calm
        have after := counted.step quiet taken
        have nowhere : loop.rebuild.server.position.client? = none := by
          have before := counted.nowhere (by simp [tests])
          rwa [← Server.position_unpause] at before
        have none := after.readUp client connection there calm (by simp [nowhere])
        obtain ⟨dropped, conserves, lost⟩ := after.counts client connection there
        have whole := conserves.iff.mpr (Nat.eq_zero_of_not_pos (mt lost.mpr calm))
        rw [linesOf_of_notMem none, List.append_nil] at whole
        exact ⟨none, whole⟩

/-- Whenever the poll set is built, a connection that is not paused has every complete line
issued and no end of a line in its buffer, exactly as long as no paused connection has been let
read again; and no end of a line in its buffer, exactly as long as none has been with one.
-/
theorem readOut_iff (threads capacity : ℕ) (store : LoggedStore) (clock : Int)
    {steps : List (ReactorLoop × LoopAction)} {loop : ReactorLoop}
    (run : TransitionSystem.Run step (start threads capacity store clock) steps loop)
    : (TransitionSystem.Along (AtRebuild fun loop => loop.server.ReadOut) steps
        ↔ TransitionSystem.Along (fun loop action => ¬ loop.Releases action) steps)
      ∧ (TransitionSystem.Along (AtRebuild fun loop => loop.server.NoneStranded) steps
        ↔ TransitionSystem.Along (fun loop action => ¬ loop.Strands action) steps) := by
  have initial := counted_start threads capacity store clock
  constructor
  · exact run.along_iff (fun counted taken => counted.not_releases_iff taken)
      (fun counted met taken => counted.step met taken) initial
  · exact run.along_iff (fun readUp taken => readUp.not_strands_iff taken)
      (fun readUp met taken => readUp.step met taken) initial.toReadUp

/-- Of a line that comes in two pieces nothing is left behind. -/
theorem readOut_iff_ping
    : ∃ steps loop,
        TransitionSystem.Run step (start 1 10000 (.empty 1024 0) 0) steps loop
        ∧ loop.phase = .polling
        ∧ (TransitionSystem.Along (AtRebuild fun loop => loop.server.ReadOut) steps
          ↔ TransitionSystem.Along (fun loop action => ¬ loop.Releases action) steps)
        ∧ (TransitionSystem.Along (AtRebuild fun loop => loop.server.NoneStranded) steps
          ↔ TransitionSystem.Along (fun loop action => ¬ loop.Strands action) steps) := by
  have traced
      : TransitionSystem.trace step (start 1 10000 (.empty 1024 0) 0)
          [.server .drain, .server .deliver, .rebuild,
            .server (.accept 5 (ascii "10.0.0.1")), .next,
            .server .drain, .server .deliver, .rebuild,
            .server (.recv 5 (some (ascii "PI"))), .server .readLine, .next,
            .server .drain, .server .deliver, .rebuild,
            .server (.recv 5 (some (ascii "NG\n"))), .server .readLine, .server .process,
            .server .readLine, .next,
            .server .drain, .server .deliver, .rebuild]
        = some _ := rfl
  have run := TransitionSystem.run_of_trace traced
  exact ⟨_, _, run, rfl, readOut_iff 1 10000 (.empty 1024 0) 0 run⟩

-----------------------------------------------------------------------------------------
-- A client with more lines than the depth of the pipeline
-----------------------------------------------------------------------------------------

/-- What the read loop does is done within the round, by induction on the turns. -/
theorem run_reading {server final : Server} {steps : List (Server × Action)}
    (run : TransitionSystem.Run Server.step server steps final)
    (kinds : ∀ entry ∈ steps, entry.2 = .readLine ∨ entry.2 = .process)
    (loop : ReactorLoop) (same : loop.server = server)
    : ∃ steps loop',
        TransitionSystem.Run step loop steps loop'
        ∧ loop'.server = final
        ∧ loop'.phase = loop.phase := by
  induction run with
  | nil => exact ⟨[], loop, .nil, same, rfl⟩
  | @snoc _ middle action final _ taken ih =>
      obtain ⟨steps, loop', run, reached, phase⟩ :=
        ih fun entry member => kinds entry (List.mem_append_left _ member)
      have kind := kinds (middle, action) (List.mem_append_right _ List.mem_cons_self)
      have permitted : loop'.permits action = true := by
        rcases kind with rfl | rfl <;> rfl
      have moved : loop'.step (.server action) = some (loop'.after action final) := by
        simp only [step, permitted, if_true, reached, taken, Option.map_some]
      refine ⟨_, _, .snoc run moved, rfl, ?_⟩
      rcases kind with rfl | rfl <;> exact phase

/-- A delivery leaves what a connection has read. -/
theorem deliver_keeps {server : Server} {client : Socket} {connection : Connection}
    (result : TaskResult) (rest : List TaskResult)
    (found : server.connections.lookup client = some connection)
    : ∃ changed,
        (server.deliver result rest).connections.lookup client = some changed
        ∧ changed.readBuffer = connection.readBuffer
        ∧ changed.received = connection.received
        ∧ (server.deliver result rest).position = .draining rest
        ∧ (server.deliver result rest).pool = server.pool := by
  unfold Server.deliver
  split
  · exact ⟨connection, found, rfl, rfl, rfl, rfl⟩
  · rename_i addressee there
    by_cases same : client = result.clientFd
    · subst client
      obtain rfl := Option.some.inj (there.symm.trans found)
      exact ⟨_, Finmap.lookup_insert _, (ConnectionState.input_place result _).2, rfl, rfl, rfl⟩
    · exact ⟨connection, (Finmap.lookup_insert_of_ne _ same).trans found, rfl, rfl, rfl, rfl⟩

/-- The results are delivered, and the round comes to its test, by induction on the results. -/
theorem run_delivering (client : Socket) (results : List TaskResult) {loop : ReactorLoop}
    {connection : Connection} (phase : loop.phase = .draining)
    (drains : loop.server.position = .draining results)
    (found : loop.server.connections.lookup client = some connection)
    : ∃ steps loop' connection',
        TransitionSystem.Run step loop steps loop'
        ∧ loop'.phase = .testing
        ∧ loop'.server.connections.lookup client = some connection'
        ∧ connection'.readBuffer = connection.readBuffer
        ∧ connection'.received = connection.received
        ∧ loop'.server.pool = loop.server.pool := by
  induction results generalizing loop connection with
  | nil =>
      have moved : loop.step (.server .deliver)
          = some (loop.after .deliver { loop.server with position := .idle }) := by
        simp [step, permits, phase, Server.step, drains]
      exact ⟨_, _, connection, .snoc .nil moved, rfl, found, rfl, rfl, rfl⟩
  | cons result rest ih =>
      have moved : loop.step (.server .deliver)
          = some (loop.after .deliver (loop.server.deliver result rest)) := by
        simp [step, permits, phase, Server.step, drains]
      obtain ⟨changed, there, kept, received, drains', pool⟩ := deliver_keeps result rest found
      have phase' : (loop.after .deliver (loop.server.deliver result rest)).phase = .draining := by
        simp only [after, drains']
      obtain ⟨steps, loop', connection', run, tests, found', kept', received', pool'⟩ :=
        ih phase' drains' there
      exact ⟨_, loop', connection', run.cons moved, tests, found', kept'.trans kept,
        received'.trans received, pool'.trans pool⟩

/-- A client sends a line 256 times and something behind it, all at once: the read loop comes to
what stands behind with 256 requests in flight.
-/
theorem exists_flooded {line : Bytes} (absent : newline ∉ line) (whole : stripCr line = line)
    (filled : line ≠ []) (rest : Bytes)
    (fits : (Server.repeated line 256 ++ rest).length ≤ 4096)
    : ∃ steps full connection,
        TransitionSystem.Run step (start 1 10000 (.empty 1024 0) 0) steps full
        ∧ full.phase = .handling
        ∧ full.server.position = .reading 5
        ∧ full.server.connections.lookup 5 = some connection
        ∧ connection.readBuffer = rest
        ∧ connection.received = Server.repeated line 256 ++ rest
        ∧ connection.inFlightRequests = maxPipelineDepth
        ∧ full.server.pool.queue.length = 256 * Server.places line
        ∧ full.server.pool.maxQueueSize = 10000
        ∧ (Server.places line = 1 → full.server.pool.completionQueue = []) := by
  let fresh : Connection := { clientIp := ascii "10.0.0.1", id := 0 }
  obtain ⟨front, polled, traced, phase, position, registered, found, calm, queue, answers, runs,
      size⟩
      : ∃ front polled,
          TransitionSystem.trace step (start 1 10000 (.empty 1024 0) 0)
            [.server .drain, .server .deliver, .rebuild,
              .server (.accept 5 (ascii "10.0.0.1")), .next,
              .server .drain, .server .deliver, .rebuild]
            = some (front, polled)
          ∧ polled.phase = .polling
          ∧ polled.server.position = .idle
          ∧ 5 ∈ polled.readable
          ∧ polled.server.connections.lookup 5 = some fresh
          ∧ 5 ∉ polled.server.pausedReads
          ∧ polled.server.pool.queue = []
          ∧ polled.server.pool.completionQueue = []
          ∧ polled.server.pool.running = true
          ∧ polled.server.pool.maxQueueSize = 10000 :=
    ⟨_, _, rfl, rfl, rfl, by decide, rfl, by decide, rfl, rfl, rfl, rfl⟩
  have run := TransitionSystem.run_of_trace traced
  let sent := Server.repeated line 256 ++ rest
  have sends : 1 ≤ sent.length := by
    rw [List.length_append, Server.length_repeated]
    omega
  have read : polled.server.step (.recv 5 (some sent))
      = some (polled.server.beginRead 5 sent fresh) := by
    simp only [Server.step, position, found, calm, if_false, sends, sent, fits, and_self, if_true]
  have received : polled.step (.server (.recv 5 (some sent)))
      = some (polled.after (.recv 5 (some sent)) (polled.server.beginRead 5 sent fresh)) := by
    simp [step, permits, registered, read]
  have there : (polled.server.beginRead 5 sent fresh).connections.lookup 5
      = some { fresh with readBuffer := sent, received := sent } :=
    Finmap.lookup_insert _
  have few : Server.places line ≤ 1 := by
    unfold Server.places
    split <;> omega
  have room : ((polled.server.beginRead 5 sent fresh).pool.queue.length
      + 256 * Server.places line) * 10
        ≤ (polled.server.beginRead 5 sent fresh).pool.maxQueueSize * 9 := by
    change (polled.server.pool.queue.length + _) * 10 ≤ polled.server.pool.maxQueueSize * 9
    rw [queue, size, List.length_nil]
    omega
  obtain ⟨turns, server, connection, reads, kinds, buffer, repeats⟩ :=
    Server.run_repeated 5 absent whole filled 256 rest (by rfl) there (by rfl) le_rfl runs room
  obtain ⟨middle, full, run256, rfl, handles⟩ := run_reading reads kinds
    (polled.after (.recv 5 (some sent)) (polled.server.beginRead 5 sent fresh)) (by rfl)
  refine ⟨_, full, connection, (run.snoc received).append run256, handles, repeats.reads,
    repeats.found, buffer, repeats.received, repeats.inFlight, ?_, repeats.size.trans size,
    fun one => (repeats.answers one).trans answers⟩
  rw [repeats.queue]
  change polled.server.pool.queue.length + _ = _
  rw [queue, List.length_nil, Nat.zero_add]

/-- The next line pauses the connection, and the reactor begins the next round and takes the
results.
-/
theorem run_paused {line rest : Bytes} {full : ReactorLoop} {connection : Connection}
    (absent : newline ∉ line) (filled : stripCr line ≠ []) (phase : full.phase = .handling)
    (reads : full.server.position = .reading 5)
    (found : full.server.connections.lookup 5 = some connection)
    (buffer : connection.readBuffer = line ++ newline :: rest)
    (depth : connection.inFlightRequests = maxPipelineDepth)
    : ∃ stopped ended drained,
        full.step (.server .readLine) = some stopped
        ∧ stopped.step .next = some ended
        ∧ ended.step (.server .drain) = some drained
        ∧ stopped.server.connections.lookup 5 = some { connection with readBuffer := rest }
        ∧ ended.server = stopped.server
        ∧ drained.phase = .draining
        ∧ drained.server.position = .draining full.server.pool.completionQueue
        ∧ drained.server.connections = stopped.server.connections
        ∧ drained.server.pool = { full.server.pool with completionQueue := [] } := by
  obtain ⟨stopped, pauses, left, idle, pool⟩ :=
    Server.readLine_full absent filled rest reads found buffer depth
  have paused : full.step (.server .readLine) = some (full.after .readLine stopped) := by
    simp [step, permits, pauses]
  let ended : ReactorLoop :=
    { full.after .readLine stopped with
      phase := .top, polled := ∅, readable := ∅, writable := ∅ }
  have ends : (full.after .readLine stopped).step .next = some ended := by
    have phase : (full.after .readLine stopped).phase = .handling := phase
    have idle : (full.after .readLine stopped).server.position = .idle := idle
    simp only [step, phase, idle]
    rfl
  have drains : ended.step (.server .drain) = some (ended.after .drain stopped.beginDrain) := by
    have idle : ended.server.position = .idle := idle
    simp only [step, permits, Server.step, idle]
    rfl
  refine ⟨_, ended, _, paused, ends, drains, left, rfl, rfl, ?_, rfl, ?_⟩
  · change Position.draining stopped.pool.completionQueue = _
    rw [pool]
  · change { stopped.pool with completionQueue := [] } = _
    rw [pool]

/-- A client sends 258 lines at once. The 257th is lost when 256 requests are in flight, and the
last one stays in the buffer; when the poll set is built the next time, the server waits for
more.
-/
theorem readOut_fails
    : ∃ steps loop connection,
        TransitionSystem.Run step (start 1 10000 (.empty 1024 0) 0) steps loop
        ∧ loop.phase = .polling
        ∧ loop.server.connections.lookup 5 = some connection
        ∧ 5 ∉ loop.server.pausedReads
        ∧ connection.received = Server.nonsense 258
        ∧ connection.readBuffer = Server.nonsense 1 := by
  have fits : (Server.repeated (ascii "a") 256 ++ Server.nonsense 2).length ≤ 4096 := by
    rw [← Server.nonsense_eq, ← Server.nonsense_add, Server.length_nonsense]
    decide
  obtain ⟨front, full, connection, run, phase, reads, found, buffer, whole, depth, queue, size, -⟩ :=
    exists_flooded (by decide) (by decide) (by decide) (Server.nonsense 2) fits
  obtain ⟨stopped, ended, drained, pauses, ends, drains, left, -, draining, position, same, pool⟩ :=
    @run_paused (ascii "a") (Server.nonsense 1) _ _ (by decide) (by decide) phase reads found
      (buffer.trans (by rfl)) depth
  rw [← same] at left
  obtain ⟨deliveries, tested, connection', delivers, tests, found', kept, received, pool'⟩ :=
    run_delivering 5 _ draining position left
  have rebuilds : tested.step .rebuild = some tested.rebuild := by
    simp only [step, tests, if_true]
  have under : tested.server.queueUnder70 = true := by
    have none : Server.places (ascii "a") = 0 := by decide
    simp [Server.queueUnder70, pool', pool, queue, size, none]
  have calm : 5 ∉ tested.rebuild.server.pausedReads := by
    intro stays
    have crowded := (Server.mem_pausedReads_unpause.mp stays).2.1
    cases crowded.symm.trans under
  have there : tested.rebuild.server.connections.lookup 5 = some connection' :=
    (congrArg _ tested.server.connections_unpause).trans found'
  have all := ((((run.snoc pauses).snoc ends).snoc drains).append delivers).snoc rebuilds
  have sent : connection'.received = Server.nonsense 258 := by
    refine received.trans (whole.trans ?_)
    rw [← Server.nonsense_eq, ← Server.nonsense_add]
  exact ⟨_, tested.rebuild, connection', all, rfl, there, calm, sent, kept⟩

end ReactorLoop

end InMemoryDB
