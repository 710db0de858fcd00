import InMemoryDB.Network.Delivery

/-! What becomes of the bytes that a connection receives: its lines are issued in their
order, except for those that a limit throws away.
-/

namespace InMemoryDB

/-- The lines of a stream that have come to their end, without carriage returns and without
the empty ones.
-/
def linesOf (stream : Bytes) : List Bytes :=
  ((Delimited.pieces newline stream).1.map stripCr).filter fun line => line ≠ []

/-- The stream ends with the end of a line. -/
def Closed (stream : Bytes) : Prop := (Delimited.pieces newline stream).2 = []

theorem closed_nil : Closed [] := rfl

/-- Behind a closed stream the lines start afresh. -/
theorem linesOf_append {front : Bytes} (closed : Closed front) (back : Bytes)
    : linesOf (front ++ back) = linesOf front ++ linesOf back := by
  have cut := Delimited.pieces_append newline front back
  rw [show (Delimited.pieces newline front).2 = [] from closed, List.nil_append] at cut
  simp [linesOf, cut]

/-- Without the end of a line there is no line. -/
theorem linesOf_of_notMem {stream : Bytes} (absent : newline ∉ stream) : linesOf stream = [] := by
  simp [linesOf, Delimited.pieces_of_notMem absent]

/-- One more line. -/
theorem pieces_line {line : Bytes} (absent : newline ∉ line)
    : Delimited.pieces newline (line ++ [newline]) = ([line], []) :=
  Delimited.pieces_append_cons [] absent

theorem Closed.snoc {front line : Bytes} (closed : Closed front) (absent : newline ∉ line)
    : Closed (front ++ (line ++ [newline])) := by
  have cut := Delimited.pieces_append newline front (line ++ [newline])
  rw [show (Delimited.pieces newline front).2 = [] from closed, List.nil_append,
    pieces_line absent] at cut
  exact congrArg Prod.snd cut

theorem linesOf_line {line : Bytes} (absent : newline ∉ line)
    : linesOf (line ++ [newline]) = if stripCr line = [] then [] else [stripCr line] := by
  rw [linesOf, pieces_line absent]
  split <;> simp_all

namespace ConnectionState

/-- What a turn of the read loop does with the first line. -/
theorem readTurn_cases (queueOver90 : Bool) (state : ConnectionState)
    : (Delimited.splitFirst newline state.readBuffer = none
        ∧ state.readTurn queueOver90 = .done)
      ∨ ∃ line rest,
          state.readBuffer = line ++ newline :: rest
          ∧ newline ∉ line
          ∧ Delimited.splitFirst newline state.readBuffer = some (line, rest)
          ∧ (stripCr line = [] ∧ state.readTurn queueOver90 = .skip rest
            ∨ stripCr line ≠ []
              ∧ (state.inFlightRequests ≥ maxPipelineDepth ∨ queueOver90 = true)
              ∧ state.readTurn queueOver90 = .pause rest
            ∨ stripCr line ≠ []
              ∧ ¬ (state.inFlightRequests ≥ maxPipelineDepth ∨ queueOver90 = true)
              ∧ state.readTurn queueOver90 = .issue (stripCr line) rest) := by
  unfold readTurn
  cases cut : Delimited.splitFirst newline state.readBuffer with
  | none => exact .inl ⟨rfl, rfl⟩
  | some parts =>
      obtain ⟨line, rest⟩ := parts
      obtain ⟨whole, absent⟩ := Delimited.splitFirst_eq_some.mp cut
      refine .inr ⟨line, rest, whole, absent, rfl, ?_⟩
      by_cases empty : stripCr line = []
      · exact .inl ⟨empty, by simp [empty]⟩
      · by_cases full : state.inFlightRequests ≥ maxPipelineDepth
        · exact .inr (.inl ⟨empty, .inl full, by simp [empty, full]⟩)
        · cases crowded : queueOver90 with
          | true => exact .inr (.inl ⟨empty, .inr rfl, by simp [empty]⟩)
          | false => exact .inr (.inr ⟨empty, by simp [full], by simp [empty, full]⟩)

end ConnectionState

-----------------------------------------------------------------------------------------
-- One connection
-----------------------------------------------------------------------------------------

/-- What a connection has received is what it has consumed and what is in its buffer; of the
lines consumed, all but the dropped ones have been issued.
-/
def Connection.Conserves (dropped : ℕ) (connection : Connection) : Prop :=
  ∃ consumed,
    connection.received = consumed ++ connection.readBuffer
    ∧ Closed consumed
    ∧ connection.issued.length + dropped = (linesOf consumed).length
    ∧ (dropped = 0 → connection.issued = linesOf consumed)

namespace Connection.Conserves

variable {dropped : ℕ} {connection changed : Connection}

/-- Nothing is lost exactly if nothing was dropped. -/
theorem iff (conserves : connection.Conserves dropped)
    : connection.issued ++ linesOf connection.readBuffer = linesOf connection.received
      ↔ dropped = 0 := by
  obtain ⟨consumed, received, closed, count, all⟩ := conserves
  rw [received, linesOf_append closed, List.append_cancel_right_eq]
  constructor
  · intro same
    rw [same] at count
    omega
  · exact all

theorem accept (ip : Bytes) (id : ℕ)
    : Connection.Conserves 0 { clientIp := ip, id := id } :=
  ⟨[], rfl, closed_nil, rfl, fun _ => rfl⟩

theorem of_same (conserves : connection.Conserves dropped)
    (received : changed.received = connection.received)
    (readBuffer : changed.readBuffer = connection.readBuffer)
    (issued : changed.issued = connection.issued)
    : changed.Conserves dropped := by
  unfold Conserves
  rw [received, readBuffer, issued]
  exact conserves

theorem receive (conserves : connection.Conserves dropped) (chunk : Bytes)
    (received : changed.received = connection.received ++ chunk)
    (readBuffer : changed.readBuffer = connection.readBuffer ++ chunk)
    (issued : changed.issued = connection.issued)
    : changed.Conserves dropped := by
  obtain ⟨consumed, whole, closed, count, all⟩ := conserves
  refine ⟨consumed, ?_, closed, issued ▸ count, issued ▸ all⟩
  rw [received, readBuffer, whole, List.append_assoc]

/-- A line is consumed. It is empty, or it is issued, or it is dropped. -/
theorem consume (conserves : connection.Conserves dropped) {line rest : Bytes}
    (cut : connection.readBuffer = line ++ newline :: rest) (absent : newline ∉ line)
    (received : changed.received = connection.received) (readBuffer : changed.readBuffer = rest)
    {more : ℕ}
    (outcome
      : stripCr line = [] ∧ changed.issued = connection.issued ∧ more = 0
        ∨ stripCr line ≠ [] ∧ changed.issued = connection.issued ∧ more = 1
        ∨ stripCr line ≠ [] ∧ changed.issued = connection.issued ++ [stripCr line] ∧ more = 0)
    : changed.Conserves (dropped + more) := by
  obtain ⟨consumed, whole, closed, count, all⟩ := conserves
  refine ⟨consumed ++ (line ++ [newline]), ?_, closed.snoc absent, ?_, ?_⟩
  · rw [received, readBuffer, whole, cut]
    simp
  · rw [linesOf_append closed, linesOf_line absent, List.length_append, ← count]
    rcases outcome with ⟨empty, same, rfl⟩ | ⟨filled, same, rfl⟩ | ⟨filled, same, rfl⟩
    · simp [empty, same]
    · simp [filled, same, Nat.add_assoc]
    · simp only [filled, same, if_false, List.length_append, List.length_singleton]
      omega
  · intro none
    rw [linesOf_append closed, linesOf_line absent, ← all (by omega)]
    rcases outcome with ⟨empty, same, rfl⟩ | ⟨filled, same, rfl⟩ | ⟨filled, same, rfl⟩
    · simp [empty, same]
    · omega
    · simp [filled, same]

end Connection.Conserves

-----------------------------------------------------------------------------------------
-- Runs of the server
-----------------------------------------------------------------------------------------

namespace Server

/-- The read loop of a connection has a complete line in hand when a limit stops it. -/
def DropsLine (id : ℕ) (server : Server) : Action → Prop
  | .readLine =>
      ∃ client connection line rest,
        server.position = .reading client
        ∧ server.connections.lookup client = some connection
        ∧ connection.id = id
        ∧ Delimited.splitFirst newline connection.readBuffer = some (line, rest)
        ∧ stripCr line ≠ []
        ∧ (connection.inFlightRequests ≥ maxPipelineDepth ∨ server.queueOver90 = true)
  | _ => False

/-- The account of all open connections after some steps: a connection has dropped nothing
exactly if no step was a drop on it.
-/
structure Accounted (steps : List (Server × Action)) (server : Server) : Prop where
  tagged : server.traffic.Tagged
  past : ∀ entry ∈ steps, ∀ id, entry.1.DropsLine id entry.2 → id < server.accepted
  conserved
    : ∀ client connection,
        server.connections.lookup client = some connection
        → ∃ dropped,
            connection.Conserves dropped
            ∧ (dropped = 0
              ↔ TransitionSystem.Along
                  (fun server action => ¬ server.DropsLine connection.id action) steps)

/-- Numbers of connections are only given out, by cases on the step. -/
theorem accepted_mono {server next : Server} {action : Action}
    (taken : server.Takes action next)
    : server.accepted ≤ next.accepted := by
  cases taken with
  | accepted => exact Nat.le_succ _
  | readLine =>
      unfold readLine
      split <;> exact le_rfl
  | deliver =>
      unfold deliver
      split <;> exact le_rfl
  | rejected | received | disconnected | process | written | drain | drained | unpause | pop
  | execute | post | sweep => exact le_rfl

namespace Accounted

variable {steps : List (Server × Action)} {server next : Server} {action : Action}

/-- A step that is no drop on the connection and keeps the account of its bytes. -/
theorem keep (accounted : Accounted steps server) {client : Socket}
    {connection changed : Connection}
    (found : server.connections.lookup client = some connection)
    (silent : ¬ server.DropsLine connection.id action) (same : changed.id = connection.id)
    (keeps : ∀ dropped, connection.Conserves dropped → changed.Conserves dropped)
    : ∃ dropped,
        changed.Conserves dropped
        ∧ (dropped = 0
          ↔ TransitionSystem.Along (fun server action => ¬ server.DropsLine changed.id action)
              (steps ++ [(server, action)])) := by
  obtain ⟨dropped, conserves, none⟩ := accounted.conserved client connection found
  refine ⟨dropped, keeps dropped conserves, none.trans ?_⟩
  rw [same, TransitionSystem.along_snoc, and_iff_left silent]

/-- In a turn of the read loop only the line in hand can be dropped. -/
theorem dropsLine_readLine {client : Socket} {connection : Connection} {id : ℕ}
    (reads : server.position = .reading client)
    (found : server.connections.lookup client = some connection)
    (drops : server.DropsLine id .readLine)
    : connection.id = id
      ∧ ∃ line rest,
          Delimited.splitFirst newline connection.readBuffer = some (line, rest)
          ∧ stripCr line ≠ []
          ∧ (connection.inFlightRequests ≥ maxPipelineDepth ∨ server.queueOver90 = true) := by
  obtain ⟨handle, state, line, rest, reading, there, own, cut, filled, full⟩ := drops
  obtain rfl := Position.reading.inj (reads.symm.trans reading)
  obtain rfl := Option.some.inj (found.symm.trans there)
  exact ⟨own, line, rest, cut, filled, full⟩

/-- A turn of the read loop drops the line in hand or none, by cases on the turn. -/
theorem readLine (accounted : Accounted steps server) {client : Socket}
    {connection : Connection} (reads : server.position = .reading client)
    (found : server.connections.lookup client = some connection) {other : Socket}
    {changed : Connection}
    (there : (server.readLine client connection).connections.lookup other = some changed)
    : ∃ dropped,
        changed.Conserves dropped
        ∧ (dropped = 0
          ↔ TransitionSystem.Along (fun server action => ¬ server.DropsLine changed.id action)
              (steps ++ [(server, .readLine)])) := by
  have silent_of_other {state : Connection} (different : other ≠ client)
      (known : server.connections.lookup other = some state)
      : ¬ server.DropsLine state.id .readLine := by
    intro drops
    exact different (accounted.tagged.unique known found
      (dropsLine_readLine reads found drops).1.symm)
  have elsewhere {state : Connection}
      (known : other ≠ client ∧ server.connections.lookup other = some state) :=
    accounted.keep known.2 (silent_of_other known.1 known.2) rfl fun _ conserves => conserves
  unfold Server.readLine at there
  rcases connection.readTurn_cases server.queueOver90 with
    ⟨cut, turn⟩
    | ⟨line, rest, whole, absent, cut,
        ⟨empty, turn⟩ | ⟨filled, full, turn⟩ | ⟨filled, room, turn⟩⟩
  · rw [turn] at there
    by_cases same : other = client
    · subst other
      obtain rfl := Option.some.inj (found.symm.trans there)
      refine accounted.keep found ?_ rfl fun _ conserves => conserves
      intro drops
      obtain ⟨-, line, rest, other, -⟩ := dropsLine_readLine reads found drops
      exact absurd (cut.symm.trans other) (by simp)
    · exact elsewhere ⟨same, there⟩
  · rw [turn] at there
    rcases lookup_insert_cases there with ⟨rfl, rfl⟩ | known
    · refine accounted.keep found ?_ rfl ?_
      · intro drops
        obtain ⟨-, line', rest', other, filled, -⟩ := dropsLine_readLine reads found drops
        obtain ⟨rfl, -⟩ := Prod.mk.inj (Option.some.inj (cut.symm.trans other))
        exact filled empty
      · intro dropped conserves
        exact conserves.consume whole absent (by rfl) (by rfl) (.inl ⟨empty, by rfl, rfl⟩)
    · exact elsewhere known
  · rw [turn] at there
    rcases lookup_insert_cases there with ⟨rfl, rfl⟩ | known
    · obtain ⟨dropped, conserves, -⟩ := accounted.conserved _ _ found
      refine ⟨dropped + 1,
        conserves.consume whole absent (by rfl) (by rfl) (.inr (.inl ⟨filled, by rfl, rfl⟩)),
        by simp, ?_⟩
      intro none
      exact absurd ⟨_, _, line, rest, reads, found, rfl, cut, filled, full⟩
        (TransitionSystem.along_snoc.mp none).2
    · exact elsewhere known
  · rw [turn] at there
    rcases lookup_insert_cases there with ⟨rfl, rfl⟩ | known
    · refine accounted.keep found ?_ rfl ?_
      · intro drops
        obtain ⟨-, line', rest', other, -, full⟩ := dropsLine_readLine reads found drops
        exact room full
      · intro dropped conserves
        exact conserves.consume whole absent (by rfl) (by rfl)
          (.inr (.inr ⟨filled, by rfl, rfl⟩))
    · exact elsewhere known

/-- A new connection is not one of those that have dropped something. -/
theorem accept (accounted : Accounted steps server) {client : Socket} (ip : Bytes)
    : ∃ dropped,
        Connection.Conserves dropped { clientIp := ip, id := server.accepted }
        ∧ (dropped = 0
          ↔ TransitionSystem.Along
              (fun before action => ¬ before.DropsLine server.accepted action)
              (steps ++ [(server, .accept client ip)])) := by
  refine ⟨0, .accept ip _, fun _ => TransitionSystem.along_snoc.mpr ⟨?_, id⟩, fun _ => rfl⟩
  intro entry member drops
  exact lt_irrefl _ (accounted.past entry member _ drops)

/-- Every step keeps the account of every connection, by cases on what it does. -/
theorem conserved_step (accounted : Accounted steps server)
    (taken : server.Takes action next) {other : Socket} {changed : Connection}
    (there : next.connections.lookup other = some changed)
    : ∃ dropped,
        changed.Conserves dropped
        ∧ (dropped = 0
          ↔ TransitionSystem.Along (fun server action => ¬ server.DropsLine changed.id action)
              (steps ++ [(server, action)])) := by
  have same (silent : ¬ server.DropsLine changed.id action)
      (known : server.connections.lookup other = some changed) :=
    accounted.keep known silent rfl fun _ conserves => conserves
  cases taken with
  | readLine reads found => exact accounted.readLine reads found there
  | accepted idle closed =>
      rcases lookup_insert_cases there with ⟨rfl, rfl⟩ | ⟨-, known⟩
      · exact accounted.accept _
      · exact same id known
  | received idle found =>
      rcases lookup_insert_cases there with ⟨rfl, rfl⟩ | ⟨-, known⟩
      · exact accounted.keep found id (by rfl) fun _ conserves =>
          conserves.receive _ (by rfl) (by rfl) (by rfl)
      · exact same id known
  | written count found =>
      rcases lookup_insert_cases there with ⟨rfl, rfl⟩ | ⟨-, known⟩
      · exact accounted.keep found id (by rfl) fun _ conserves =>
          conserves.of_same (by rfl) (ConnectionState.input_written count _).2 (by rfl)
      · exact same id known
  | disconnected client idle =>
      refine same ?_ (lookup_of_lookup_erase there)
      intro drops
      cases action with
      | readLine =>
          obtain ⟨handle, state, line, rest, reads, -⟩ := drops
          cases idle.symm.trans reads
      | accept | recv | process | write | hangup | drain | deliver | unpause | pop | execute
      | post | sweep => exact drops
  | deliver drains =>
      unfold Server.deliver at there
      split at there
      · exact same id there
      · rename_i connection found
        rcases lookup_insert_cases there with ⟨rfl, rfl⟩ | ⟨-, known⟩
        · exact accounted.keep found id (by rfl) fun _ conserves =>
            conserves.of_same (by rfl) (ConnectionState.input_place _ _).2 (by rfl)
        · exact same id known
  | rejected | process | drain | drained | unpause | pop | execute | post | sweep =>
      exact same id there

/-- Every step keeps the account. -/
theorem step (accounted : Accounted steps server) (taken : server.step action = some next)
    : Accounted (steps ++ [(server, action)]) next := by
  have takes := takes_of_step taken
  refine ⟨accounted.tagged.moves (moves_of_takes takes), ?_, ?_⟩
  · refine List.forall_mem_append.mpr ⟨?_, List.forall_mem_singleton.mpr ?_⟩
    · intro entry member id drops
      exact (accounted.past entry member id drops).trans_le (accepted_mono takes)
    · intro id drops
      have known : id < server.accepted := by
        cases action with
        | readLine =>
            obtain ⟨handle, state, line, rest, reads, found, own, -⟩ := drops
            exact own ▸ accounted.tagged.opened found
        | accept | recv | process | write | hangup | drain | deliver | unpause | pop | execute
        | post | sweep => exact drops.elim
      exact known.trans_le (accepted_mono takes)
  · exact fun client connection there => accounted.conserved_step takes there

end Accounted

/-- The account holds after every run, by induction on the run. -/
theorem accounted_of_run {threadCount capacity : ℕ} {store : LoggedStore} {clock : Int}
    {steps : List (Server × Action)} {server : Server}
    (run : TransitionSystem.Run step (startWith threadCount capacity store clock) steps server)
    : Accounted steps server := by
  induction run with
  | nil =>
      refine ⟨tagged_start threadCount store clock, by simp, ?_⟩
      intro client connection found
      simp [startWith, start] at found
  | snoc _ taken ih => exact ih.step taken

/-- A run drops nothing of a connection if all its lines are still there. -/
theorem whole_of_lines {threadCount capacity : ℕ} {store : LoggedStore} {clock : Int}
    {steps : List (Server × Action)} {server : Server}
    (run : TransitionSystem.Run step (startWith threadCount capacity store clock) steps server)
    {client : Socket} {connection : Connection} {id : ℕ}
    (found : server.connections.lookup client = some connection) (own : connection.id = id)
    (lines : connection.issued ++ linesOf connection.readBuffer = linesOf connection.received)
    : TransitionSystem.Along (fun server action => ¬ server.DropsLine id action) steps := by
  subst own
  obtain ⟨dropped, conserves, none⟩ := (accounted_of_run run).conserved client connection found
  exact none.mp (conserves.iff.mp lines)

/-- At every state of a live connection, the lines issued so far and the complete lines left
in its buffer are those of all it has received, exactly if none was dropped in the run.
-/
theorem lines_conserved_iff (threadCount : ℕ) (store : LoggedStore) (clock : Int)
    {steps : List (Server × Action)} {server : Server}
    (run : TransitionSystem.Run step (start threadCount store clock) steps server)
    (client : Socket) {connection : Connection}
    (found : server.connections.lookup client = some connection)
    : connection.issued ++ linesOf connection.readBuffer = linesOf connection.received
      ↔ TransitionSystem.Along
          (fun server action => ¬ server.DropsLine connection.id action) steps := by
  obtain ⟨dropped, conserves, none⟩ := (accounted_of_run run).conserved client connection found
  exact conserves.iff.trans none

theorem lines_conserved_iff_asked
    : ∃ steps server connection,
        TransitionSystem.Run step (start 1 (.empty 1024 0) 0) steps server
        ∧ server.connections.lookup 5 = some connection
        ∧ (connection.issued ++ linesOf connection.readBuffer = linesOf connection.received
          ↔ TransitionSystem.Along
              (fun server action => ¬ server.DropsLine connection.id action) steps) := by
  have traced : TransitionSystem.trace step (start 1 (.empty 1024 0) 0) asked = some _ := rfl
  have run := TransitionSystem.run_of_trace traced
  exact ⟨_, _, _, run, rfl, lines_conserved_iff 1 (.empty 1024 0) 0 run 5 rfl⟩

-----------------------------------------------------------------------------------------
-- A client with more lines than the depth of the pipeline
-----------------------------------------------------------------------------------------

/-- A line that is sent again and again. -/
def repeated (line : Bytes) (count : ℕ) : Bytes :=
  (List.replicate count (line ++ [newline])).flatten

theorem length_repeated (line : Bytes) (count : ℕ)
    : (repeated line count).length = count * (line.length + 1) := by
  rw [repeated, List.length_flatten, List.map_replicate, List.sum_replicate, List.length_append]
  rfl

/-- How many places a line takes in the task queue. -/
def places (line : Bytes) : ℕ := if (CommandFactory.parse (tokenize line)).isSome then 1 else 0

/-- A request takes its place in a queue that has one, and only a line that makes no command is
answered at once.
-/
theorem process_of_room {request : Request} {pool : WorkerPool} (running : pool.running = true)
    (room : pool.queue.length + places request.line ≤ pool.maxQueueSize)
    : (Pipeline.process request pool).queue.length = pool.queue.length + places request.line
      ∧ (Pipeline.process request pool).maxQueueSize = pool.maxQueueSize
      ∧ (Pipeline.process request pool).running = true
      ∧ (places request.line = 1
        → (Pipeline.process request pool).completionQueue = pool.completionQueue) := by
  cases parsed : CommandFactory.parse (tokenize request.line) with
  | none =>
      have none : places request.line = 0 := by simp [places, parsed]
      rw [Pipeline.process_of_refused parsed, none]
      exact ⟨rfl, rfl, running, nofun⟩
  | some command =>
      have one : places request.line = 1 := by simp [places, parsed]
      have free : ¬ (!pool.running || pool.queue.length ≥ pool.maxQueueSize) = true := by
        simp only [running, Bool.not_true, Bool.false_or, decide_eq_true_eq]
        omega
      have queued : Pipeline.process request pool
          = { pool with queue := pool.queue ++ [request.task command] } :=
        (Pipeline.processWith_of_parsed rfl parsed pool).trans (if_neg free)
      rw [queued, one]
      exact ⟨List.length_append, rfl, running, fun _ => rfl⟩

/-- What so many issues of a line come to at their connection and in the pool. -/
structure Repeats (client : Socket) (line : Bytes) (count : ℕ) (server final : Server)
    (connection changed : Connection)
    : Prop where
  reads : final.position = .reading client
  found : final.connections.lookup client = some changed
  inFlight : changed.inFlightRequests = connection.inFlightRequests + count
  issued : changed.issued.length = connection.issued.length + count
  received : changed.received = connection.received
  queue : final.pool.queue.length = server.pool.queue.length + count * places line
  size : final.pool.maxQueueSize = server.pool.maxQueueSize
  running : final.pool.running = true
  answers : places line = 1 → final.pool.completionQueue = server.pool.completionQueue

theorem Repeats.trans {client : Socket} {line : Bytes} {count count' : ℕ}
    {server middle final : Server} {connection between changed : Connection}
    (first : Repeats client line count server middle connection between)
    (later : Repeats client line count' middle final between changed)
    : Repeats client line (count + count') server final connection changed where
  reads := later.reads
  found := later.found
  inFlight := by rw [later.inFlight, first.inFlight, Nat.add_assoc]
  issued := by rw [later.issued, first.issued, Nat.add_assoc]
  received := later.received.trans first.received
  queue := by rw [later.queue, first.queue, Nat.add_mul, Nat.add_assoc]
  size := later.size.trans first.size
  running := later.running
  answers one := (later.answers one).trans (first.answers one)

/-- With neither limit reached, a turn of the read loop and a call of the pipeline take a line. -/
theorem run_line {client : Socket} {line rest : Bytes} (absent : newline ∉ line)
    (whole : stripCr line = line) (filled : line ≠ []) {server : Server}
    {connection : Connection} (reads : server.position = .reading client)
    (found : server.connections.lookup client = some connection)
    (buffer : connection.readBuffer = line ++ newline :: rest)
    (room : connection.inFlightRequests < maxPipelineDepth)
    (running : server.pool.running = true)
    (calm : (server.pool.queue.length + places line) * 10 ≤ server.pool.maxQueueSize * 9)
    : ∃ issuing next changed,
        server.step .readLine = some issuing
        ∧ issuing.step .process = some next
        ∧ changed.readBuffer = rest
        ∧ Repeats client line 1 server next connection changed := by
  have cut : Delimited.splitFirst newline connection.readBuffer = some (line, rest) :=
    Delimited.splitFirst_eq_some.mpr ⟨buffer, absent⟩
  have under : server.queueOver90 = false := by
    simp only [queueOver90, decide_eq_false_iff_not]
    omega
  have turn : connection.readTurn server.queueOver90 = .issue line rest := by
    simp [ConnectionState.readTurn, cut, whole, filled, not_le.mpr room, under]
  let request : Request :=
    ⟨client, line, connection.nextSeqIssue, connection.clientIp, connection.id⟩
  let changed : Connection :=
    { connection with
      toConnectionState := connection.toConnectionState.issue rest
      issued := connection.issued ++ [line] }
  let issuing : Server :=
    { server.putConnection client changed with position := .processing request }
  have issued : server.step .readLine = some issuing := by
    simp only [step, reads, found, Option.map_some, readLine, turn]
    rfl
  obtain ⟨queue, size, runs, answers⟩ :=
    @process_of_room request server.pool running (by change _ + places line ≤ _; omega)
  refine ⟨issuing, issuing.process request, changed, issued, rfl, rfl, ?_⟩
  exact ⟨rfl, Finmap.lookup_insert _, rfl, List.length_append, rfl,
    queue.trans (by rw [Nat.one_mul]), size, runs, answers⟩

/-- As long as neither limit is reached, the line is taken each time it is there; by induction on
their number.
-/
theorem run_repeated (client : Socket) {line : Bytes} (absent : newline ∉ line)
    (whole : stripCr line = line) (filled : line ≠ []) (count : ℕ) (rest : Bytes)
    {server : Server} {connection : Connection} (reads : server.position = .reading client)
    (found : server.connections.lookup client = some connection)
    (buffer : connection.readBuffer = repeated line count ++ rest)
    (depth : connection.inFlightRequests + count ≤ maxPipelineDepth)
    (running : server.pool.running = true)
    (calm
      : (server.pool.queue.length + count * places line) * 10 ≤ server.pool.maxQueueSize * 9)
    : ∃ steps final changed,
        TransitionSystem.Run step server steps final
        ∧ (∀ entry ∈ steps, entry.2 = .readLine ∨ entry.2 = .process)
        ∧ changed.readBuffer = rest
        ∧ Repeats client line count server final connection changed := by
  induction count generalizing server connection with
  | zero =>
      exact ⟨[], server, connection, .nil, by simp, buffer, reads, found, rfl, rfl, rfl, by simp,
        rfl, running, fun _ => rfl⟩
  | succ count ih =>
      rw [Nat.succ_mul] at calm
      have next : connection.readBuffer
          = line ++ newline :: (repeated line count ++ rest) := by
        simp [buffer, repeated, List.replicate_succ]
      obtain ⟨issuing, taken, between, issued, processed, left, first⟩ :=
        run_line absent whole filled reads found next (by omega) running (by omega)
      have depth' : between.inFlightRequests + count ≤ maxPipelineDepth := by
        rw [first.inFlight]
        omega
      have calm'
          : (taken.pool.queue.length + count * places line) * 10
            ≤ taken.pool.maxQueueSize * 9 := by
        rw [first.queue, first.size]
        omega
      obtain ⟨steps, final, changed, run, kinds, buffer', later⟩ :=
        ih first.reads first.found left depth' first.running calm'
      refine ⟨_, final, changed, (run.cons processed).cons issued, ?_, buffer', ?_⟩
      · exact List.forall_mem_cons.mpr ⟨.inl rfl, List.forall_mem_cons.mpr ⟨.inr rfl, kinds⟩⟩
      · rw [Nat.add_comm]
        exact first.trans later

/-- Lines that make no command. -/
def nonsense (count : ℕ) : Bytes := (List.replicate count (ascii "a\n")).flatten

theorem nonsense_eq (count : ℕ) : nonsense count = repeated (ascii "a") count := by
  have line : ascii "a\n" = ascii "a" ++ [newline] := by decide
  rw [nonsense, repeated, line]

/-- They are taken up to the depth, and leave no task in the queue. -/
theorem run_nonsense (client : Socket) (count : ℕ) (rest : Bytes) {server : Server}
    {connection : Connection} (reads : server.position = .reading client)
    (found : server.connections.lookup client = some connection)
    (buffer : connection.readBuffer = nonsense count ++ rest)
    (depth : connection.inFlightRequests + count ≤ maxPipelineDepth)
    (running : server.pool.running = true) (queue : server.pool.queue = [])
    : ∃ steps final connection',
        TransitionSystem.Run step server steps final
        ∧ (∀ entry ∈ steps, entry.2 = .readLine ∨ entry.2 = .process)
        ∧ final.position = .reading client
        ∧ final.connections.lookup client = some connection'
        ∧ connection'.readBuffer = rest
        ∧ connection'.inFlightRequests = connection.inFlightRequests + count
        ∧ connection'.issued.length = connection.issued.length + count
        ∧ connection'.received = connection.received
        ∧ final.pool.queue = []
        ∧ final.pool.maxQueueSize = server.pool.maxQueueSize := by
  have none : places (ascii "a") = 0 := by decide
  obtain ⟨steps, final, connection', run, kinds, buffer', repeats⟩ :=
    @run_repeated client (ascii "a") (by decide) (by decide) (by decide) count rest server
      connection reads found (nonsense_eq count ▸ buffer) depth running (by simp [queue, none])
  refine ⟨steps, final, connection', run, kinds, repeats.reads, repeats.found, buffer',
    repeats.inFlight, repeats.issued, repeats.received, ?_, repeats.size⟩
  simpa [queue, none] using repeats.queue

theorem nonsense_add (front back : ℕ)
    : nonsense (front + back) = nonsense front ++ nonsense back := by
  simp only [nonsense, List.replicate_add, List.flatten_append]

theorem length_nonsense (count : ℕ) : (nonsense count).length = 2 * count := by
  rw [nonsense_eq, length_repeated, Nat.mul_comm]
  rfl

/-- Each of these lines is one line, by induction on their number. -/
theorem length_linesOf_nonsense (count : ℕ) : (linesOf (nonsense count)).length = count := by
  induction count with
  | zero => rfl
  | succ count ih =>
      have first : nonsense (count + 1) = ascii "a\n" ++ nonsense count := rfl
      have closed : Closed (ascii "a\n") := rfl
      rw [first, linesOf_append closed, List.length_append, ih, Nat.add_comm]
      rfl

/-- With the depth reached, the next line is taken out of the buffer and lost. -/
theorem readLine_full {line : Bytes} (absent : newline ∉ line) (filled : stripCr line ≠ [])
    {server : Server} {client : Socket} {connection : Connection} (rest : Bytes)
    (reads : server.position = .reading client)
    (found : server.connections.lookup client = some connection)
    (buffer : connection.readBuffer = line ++ newline :: rest)
    (depth : connection.inFlightRequests = maxPipelineDepth)
    : ∃ final,
        server.step .readLine = some final
        ∧ final.connections.lookup client = some { connection with readBuffer := rest }
        ∧ final.position = .idle
        ∧ final.pool = server.pool := by
  have cut : Delimited.splitFirst newline connection.readBuffer = some (line, rest) :=
    Delimited.splitFirst_eq_some.mpr ⟨buffer, absent⟩
  have turn : connection.readTurn server.queueOver90 = .pause rest := by
    simp [ConnectionState.readTurn, cut, filled, depth]
  refine ⟨server.readLine client connection, ?_, ?_⟩
  · simp only [step, reads, found, Option.map_some]
  · rw [readLine, turn]
    exact ⟨Finmap.lookup_insert _, rfl, rfl⟩

/-- A client sends 257 lines at once. The last one is taken out of the buffer when 256
requests are in flight, and is lost.
-/
theorem lines_conserved_fails
    : ∃ steps server connection,
        TransitionSystem.Run step (start 1 (.empty 1024 0) 0) steps server
        ∧ server.connections.lookup 5 = some connection
        ∧ connection.received = nonsense 257
        ∧ (connection.issued ++ linesOf connection.readBuffer).length = 256
        ∧ (linesOf connection.received).length = 257 := by
  let opened := (start 1 (.empty 1024 0) 0).acceptConnection 5 (ascii "10.0.0.1")
  let fresh : Connection := { clientIp := ascii "10.0.0.1", id := 0 }
  have accepted
      : (start 1 (.empty 1024 0) 0).step (.accept 5 (ascii "10.0.0.1")) = some opened := rfl
  have known : opened.connections.lookup 5 = some fresh := rfl
  have fits : 1 ≤ (nonsense 257).length ∧ (nonsense 257).length ≤ 4096 := by
    rw [length_nonsense]
    decide
  have received : opened.step (.recv 5 (some (nonsense 257)))
      = some (opened.beginRead 5 (nonsense 257) fresh) := by
    have idle : opened.position = .idle := rfl
    have calm : 5 ∉ opened.pausedReads := by decide
    simp only [step, idle, known, calm, if_false, fits, and_self, if_true]
  have there (chunk : Bytes) : (opened.beginRead 5 chunk fresh).connections.lookup 5
      = some { fresh with readBuffer := chunk, received := chunk } :=
    Finmap.lookup_insert _
  obtain ⟨steps, server, connection, run, -, reading, found, buffer, depth, count, whole, -⟩ :=
    run_nonsense 5 256 (nonsense 1) (by rfl) (there _) (nonsense_add 256 1) (by decide) (by rfl)
      (by rfl)
  obtain ⟨final, paused, left, -⟩ :=
    @readLine_full (ascii "a") (by decide) (by decide) _ _ _ [] reading found
      (buffer.trans (by rfl)) depth
  refine ⟨_, final, _, .snoc ((run.cons received).cons accepted) paused, left, whole, ?_, ?_⟩
  · rw [List.length_append, show linesOf [] = [] from rfl, count]
    rfl
  · rw [show ({ connection with readBuffer := [] } : Connection).received = nonsense 257 from whole]
    exact length_linesOf_nonsense 257

end Server

end InMemoryDB
