import InMemoryDB.Network.InFlight
import InMemoryDB.Network.ReactorLoop

/-! The lines that a connection hands to the pipeline, and their numbers: they depend on the
stream of bytes it has received and not on the pieces in which these came.
-/

namespace InMemoryDB

/-- The call of the pipeline that the reactor is about to make for a connection: the line and
its number.
-/
def Position.calls (id : ℕ) : Position → List (Bytes × ℕ)
  | .processing request => if request.origin = id then [(request.line, request.seqId)] else []
  | .idle | .draining _ | .reading _ => []

namespace Server

/-- The call of the pipeline that a turn makes for a connection. -/
def callAt (id : ℕ) (server : Server) : Action → List (Bytes × ℕ)
  | .process => server.position.calls id
  | _ => []

/-- All calls of the pipeline for a connection. -/
def calls (id : ℕ) (steps : List (Server × Action)) : List (Bytes × ℕ) :=
  steps.flatMap fun entry => entry.1.callAt id entry.2

theorem calls_snoc (id : ℕ) (steps : List (Server × Action)) (server : Server) (action : Action)
    : calls id (steps ++ [(server, action)]) = calls id steps ++ server.callAt id action := by
  simp [calls]

/-- The calls made and the one to be made are the issued lines with their numbers; and if no line
was dropped, no end of a line is left in the buffer behind the read loop.
-/
structure Framed (steps : List (Server × Action)) (server : Server) (client : Socket)
    (connection : Connection)
    : Prop where
  numbered
    : calls connection.id steps ++ server.position.calls connection.id
      = connection.issued.zipIdx
  readUp
    : TransitionSystem.Along (fun server action => ¬ server.DropsLine connection.id action) steps
      → server.position.client? ≠ some client
      → newline ∉ connection.readBuffer

variable {steps : List (Server × Action)} {server next : Server} {action : Action}
  {client other : Socket} {connection changed : Connection}

/-- A turn that issues no line of a connection. -/
theorem Framed.numbered_keep (framed : Framed steps server client connection)
    (id : changed.id = connection.id) (issued : changed.issued = connection.issued)
    (calls
      : server.callAt connection.id action ++ next.position.calls connection.id
        = server.position.calls connection.id)
    : Server.calls changed.id (steps ++ [(server, action)]) ++ next.position.calls changed.id
      = changed.issued.zipIdx := by
  rw [id, issued, calls_snoc, List.append_assoc, calls]
  exact framed.numbered

/-- A turn that leaves the lines of a connection alone. -/
theorem Framed.keep (framed : Framed steps server client connection)
    (id : changed.id = connection.id) (issued : changed.issued = connection.issued)
    (readBuffer : changed.readBuffer = connection.readBuffer)
    (calls
      : server.callAt connection.id action ++ next.position.calls connection.id
        = server.position.calls connection.id)
    (away
      : next.position.client? ≠ some client → server.position.client? ≠ some client)
    : Framed (steps ++ [(server, action)]) next client changed := by
  refine ⟨framed.numbered_keep id issued calls, ?_⟩
  intro quiet elsewhere
  rw [id] at quiet
  rw [readBuffer]
  exact framed.readUp (TransitionSystem.along_snoc.mp quiet).1 (away elsewhere)

/-- The lines of every open connection are framed, and no calls are made for connections that are
still to come.
-/
structure Known (steps : List (Server × Action)) (server : Server) : Prop where
  tagged : server.traffic.Tagged
  past : ∀ {id}, server.accepted ≤ id → calls id steps = []
  framed
    : ∀ {client connection},
        server.connections.lookup client = some connection
        → Framed steps server client connection

namespace Known

theorem calls_eq_nil (known : Known steps server) {id : ℕ} (unknown : server.accepted ≤ id)
    : server.position.calls id = [] := by
  cases position : server.position with
  | processing request =>
      have asked : request.ticket ∈ server.traffic.outstanding := by
        simp [Traffic.outstanding, traffic, position, Position.inHand]
      have before : request.origin < server.accepted := known.tagged.outstanding _ asked
      have other : request.origin ≠ id := by omega
      simp [Position.calls, other]
  | idle | draining | reading => rfl

theorem callAt_eq_nil (known : Known steps server) {id : ℕ} (unknown : server.accepted ≤ id)
    (action : Action)
    : server.callAt id action = [] := by
  cases action with
  | process => exact known.calls_eq_nil unknown
  | accept | recv | readLine | write | hangup | drain | deliver | unpause | pop | execute | post
  | sweep => rfl

/-- A turn of the read loop, by cases on what it comes to. -/
theorem readLine (known : Known steps server) (bounded : server.AllConnections Connection.Bounded)
    (reads : server.position = .reading client)
    (found : server.connections.lookup client = some connection)
    (there : (server.readLine client connection).connections.lookup other = some changed)
    : Framed (steps ++ [(server, .readLine)]) (server.readLine client connection) other
        changed := by
  have before (id : ℕ) : server.position.calls id = [] := by rw [reads]; rfl
  have here : server.position.client? = some client := by rw [reads]; rfl
  have elsewhere (next : Server) (different : other ≠ client)
      : next.position.client? ≠ some other → server.position.client? ≠ some other :=
    fun _ => client?_ne here different
  rcases connection.readTurn_cases server.queueOver90 with
    ⟨cut, turn⟩
    | ⟨line, rest, whole, absent, cut,
        ⟨empty, turn⟩ | ⟨filled, full, turn⟩ | ⟨filled, room, turn⟩⟩
  · simp only [Server.readLine, turn] at there ⊢
    by_cases same : other = client
    · subst other
      obtain rfl := Option.some.inj (found.symm.trans there)
      exact ⟨(known.framed found).numbered_keep rfl rfl (before _).symm,
        fun _ _ => Delimited.splitFirst_eq_none.mp cut⟩
    · exact (known.framed there).keep rfl rfl rfl (before _).symm (elsewhere _ same)
  · simp only [Server.readLine, turn] at there ⊢
    rcases lookup_insert_cases there with ⟨rfl, rfl⟩ | ⟨different, kept⟩
    · exact ⟨(known.framed found).numbered_keep rfl rfl rfl, fun _ away => absurd here away⟩
    · exact (known.framed kept).keep rfl rfl rfl rfl (elsewhere _ different)
  · simp only [Server.readLine, turn] at there ⊢
    rcases lookup_insert_cases there with ⟨rfl, rfl⟩ | ⟨different, kept⟩
    · refine ⟨(known.framed found).numbered_keep rfl rfl (before _).symm, ?_⟩
      intro quiet
      exact absurd ⟨_, _, line, rest, reads, found, rfl, cut, filled, full⟩
        (TransitionSystem.along_snoc.mp quiet).2
    · exact (known.framed kept).keep rfl rfl rfl (before _).symm (elsewhere _ different)
  · simp only [Server.readLine, turn] at there ⊢
    rcases lookup_insert_cases there with ⟨rfl, rfl⟩ | ⟨different, kept⟩
    · refine ⟨?_, fun _ away => absurd rfl away⟩
      have numbered := (known.framed found).numbered
      have number := (bounded _ _ found).numbered
      have none : server.callAt connection.id .readLine = [] := rfl
      rw [before, List.append_nil] at numbered
      rw [calls_snoc, none, List.append_nil, numbered]
      simp [Position.calls, List.zipIdx_append, number]
    · refine (known.framed kept).keep rfl rfl rfl ?_ (elsewhere _ different)
      have apart : connection.id ≠ changed.id :=
        fun equal => different (known.tagged.unique kept found equal.symm)
      rw [before]
      simp [callAt, Position.calls, apart]

/-- A result is placed, or has no connection any more. -/
theorem deliver (known : Known steps server) {result : TaskResult} {rest : List TaskResult}
    (drains : server.position = .draining (result :: rest))
    (there : (server.deliver result rest).connections.lookup other = some changed)
    : Framed (steps ++ [(server, .deliver)]) (server.deliver result rest) other changed := by
  have none (id : ℕ) : server.position.calls id = [] := by rw [drains]; rfl
  have away := client?_ne_of_draining drains other
  cases found : server.connections.lookup result.clientFd with
  | none =>
      simp only [Server.deliver, found] at there ⊢
      exact (known.framed there).keep rfl rfl rfl (none _).symm fun _ => away
  | some connection =>
      simp only [Server.deliver, found] at there ⊢
      rcases lookup_insert_cases there with ⟨rfl, rfl⟩ | ⟨different, kept⟩
      · exact (known.framed found).keep rfl rfl (ConnectionState.input_place result _).2
          (none _).symm fun _ => away
      · exact (known.framed kept).keep rfl rfl rfl (none _).symm fun _ => away

/-- Every turn keeps this, by cases on what it does. -/
theorem step (known : Known steps server) (bounded : server.AllConnections Connection.Bounded)
    (taken : server.step action = some next)
    : Known (steps ++ [(server, action)]) next := by
  have takes := takes_of_step taken
  refine ⟨known.tagged.moves (moves_of_takes takes), ?_, ?_⟩
  · intro id unknown
    have before := (accepted_mono takes).trans unknown
    rw [calls_snoc, known.past before, known.callAt_eq_nil before]
    rfl
  · intro other changed there
    cases takes with
    | readLine reads found => exact known.readLine bounded reads found there
    | @accepted client ip idle closed =>
        rcases lookup_insert_cases there with ⟨rfl, rfl⟩ | ⟨different, kept⟩
        · refine ⟨?_, fun _ _ => List.not_mem_nil⟩
          rw [calls_snoc, known.past le_rfl]
          exact known.calls_eq_nil le_rfl
        · exact (known.framed kept).keep rfl rfl rfl rfl id
    | @received client chunk connection idle found =>
        rcases lookup_insert_cases there with ⟨rfl, rfl⟩ | ⟨different, kept⟩
        · exact ⟨(known.framed found).numbered_keep rfl rfl (by rw [idle]; rfl),
            fun _ away => absurd rfl away⟩
        · exact (known.framed kept).keep rfl rfl rfl (by rw [idle]; rfl)
            fun _ => client?_ne_of_idle idle other
    | @process request processes =>
        apply (known.framed there).keep rfl rfl rfl
        · exact List.append_nil _
        · rw [processes]
          exact id
    | @written client sent connection count found =>
        rcases lookup_insert_cases there with ⟨rfl, rfl⟩ | ⟨different, kept⟩
        · exact (known.framed found).keep rfl rfl (ConnectionState.input_written count _).2 rfl id
        · exact (known.framed kept).keep rfl rfl rfl rfl id
    | disconnected client idle =>
        have silent : server.callAt changed.id action = [] := by
          cases action with
          | process => exact congrArg (Position.calls changed.id) idle
          | accept | recv | readLine | write | hangup | drain | deliver | unpause | pop | execute
          | post | sweep => rfl
        refine (known.framed (lookup_of_lookup_erase there)).keep rfl rfl rfl ?_ id
        rw [silent]
        rfl
    | drain idle =>
        exact (known.framed there).keep rfl rfl rfl (by rw [idle]; rfl)
          fun _ => client?_ne_of_idle idle other
    | drained drains =>
        exact (known.framed there).keep rfl rfl rfl (by rw [drains]; rfl)
          fun _ => client?_ne_of_draining drains other
    | deliver drains => exact known.deliver drains there
    | rejected | unpause | pop | execute | post | sweep =>
        exact (known.framed there).keep rfl rfl rfl rfl id

end Known

theorem known_of_run {threadCount capacity : ℕ} {store : LoggedStore} {clock : Int}
    {steps : List (Server × Action)} {server : Server}
    (run : TransitionSystem.Run step (startWith threadCount capacity store clock) steps server)
    : Known steps server := by
  induction run with
  | nil =>
      refine ⟨tagged_start threadCount store clock, fun _ => rfl, ?_⟩
      intro client connection found
      simp [startWith, start] at found
  | snoc earlier taken ih => exact ih.step (bounded_of_run earlier) taken

/-- Without a drop, the calls made for a connection behind its read loop and what is left in its
buffer are those of the stream it has received.
-/
theorem framed_of_run {threadCount capacity : ℕ} {store : LoggedStore} {clock : Int}
    {steps : List (Server × Action)} {server : Server}
    (run : TransitionSystem.Run step (startWith threadCount capacity store clock) steps server)
    {client : Socket} {connection : Connection}
    (found : server.connections.lookup client = some connection)
    (away : server.position.client? ≠ some client)
    (quiet
      : TransitionSystem.Along (fun server action => ¬ server.DropsLine connection.id action) steps)
    : calls connection.id steps = (linesOf connection.received).zipIdx
      ∧ connection.readBuffer = (Delimited.pieces newline connection.received).2 := by
  have known := known_of_run run
  obtain ⟨numbered, readUp⟩ := known.framed found
  obtain ⟨dropped, conserves, none⟩ := (accounted_of_run run).conserved client connection found
  obtain ⟨consumed, whole, closed, -, all⟩ := conserves
  have issued := all (none.mpr quiet)
  have absent := readUp quiet away
  have rest := Delimited.pieces_append newline consumed connection.readBuffer
  rw [show (Delimited.pieces newline consumed).2 = [] from closed, List.nil_append,
    Delimited.pieces_of_notMem absent] at rest
  have silent : server.position.calls connection.id = [] := by
    cases position : server.position with
    | processing request =>
        refine if_neg fun own => away ?_
        have asked : request.ticket ∈ server.traffic.outstanding := by
          simp [Traffic.outstanding, traffic, position, Position.inHand]
        rw [position]
        exact congrArg some (known.tagged.home found request.ticket asked own)
    | idle | draining | reading => rfl
  constructor
  · rw [silent, List.append_nil, issued] at numbered
    rw [whole, linesOf_append closed, linesOf_of_notMem absent, List.append_nil]
    exact numbered
  · rw [whole, rest]

/-- From any turn on, the read loop comes to its end by the reactor's own turns: each takes a
line out of the buffer; by induction on what is left there.
-/
theorem readLoop_ends {server : Server} {client : Socket} {connection : Connection}
    (reads : server.position = .reading client)
    (found : server.connections.lookup client = some connection)
    : ∃ turns final,
        TransitionSystem.Run step server turns final
        ∧ (∀ entry ∈ turns, entry.2 = .readLine ∨ entry.2 = .process)
        ∧ final.position = .idle := by
  induction known : connection.readBuffer.length using Nat.strong_induction_on
    generalizing server connection with
  | _ size ih =>
      have taken : server.step .readLine = some (server.readLine client connection) := by
        simp only [step, reads, found, Option.map_some]
      have fewer {line rest : Bytes} (whole : connection.readBuffer = line ++ newline :: rest)
          : rest.length < size := by
        rw [← known, whole, List.length_append, List.length_cons]
        omega
      rcases connection.readTurn_cases server.queueOver90 with
        ⟨-, turn⟩
        | ⟨line, rest, whole, -, -, ⟨-, turn⟩ | ⟨-, -, turn⟩ | ⟨-, -, turn⟩⟩
      · refine ⟨_, _, .snoc .nil taken, by simp, ?_⟩
        rw [readLine, turn]
      · rw [readLine, turn] at taken
        let changed : Connection := { connection with readBuffer := rest }
        obtain ⟨turns, final, run, kinds, idle⟩ :=
          @ih rest.length (fewer whole) (server.putConnection client changed) changed reads
            (Finmap.lookup_insert _) rfl
        exact ⟨_, final, run.cons taken, List.forall_mem_cons.mpr ⟨.inl rfl, kinds⟩, idle⟩
      · refine ⟨_, _, .snoc .nil taken, by simp, ?_⟩
        rw [readLine, turn]
      · rw [readLine, turn] at taken
        let changed : Connection :=
          { connection with
            toConnectionState := connection.toConnectionState.issue rest
            issued := connection.issued ++ [stripCr line] }
        let request : Request :=
          ⟨client, stripCr line, connection.nextSeqIssue, connection.clientIp, connection.id⟩
        let issuing : Server :=
          { server.putConnection client changed with position := .processing request }
        have issued : server.step .readLine = some issuing := taken
        have processed : issuing.step .process = some (issuing.process request) := rfl
        obtain ⟨turns, final, run, kinds, idle⟩ :=
          @ih rest.length (fewer whole) (issuing.process request) changed rfl
            (Finmap.lookup_insert _) rfl
        refine ⟨_, final, (run.cons processed).cons issued, ?_, idle⟩
        exact List.forall_mem_cons.mpr ⟨.inl rfl, List.forall_mem_cons.mpr ⟨.inr rfl, kinds⟩⟩

/-- Two connections that have received the same stream, in whatever pieces and whatever else
their servers do, and of which no line was stopped by a limit: behind their read loops the same
lines have been handed to the pipeline with the numbers from 0 on, and the same bytes are left in
their buffers, those behind the last end of a line. A read loop always comes to its end.
-/
theorem framing_independent {threads capacity threads' capacity' : ℕ} {store store' : LoggedStore}
    {clock clock' : Int} {steps steps' : List (Server × Action)} {server server' : Server}
    (run : TransitionSystem.Run step (startWith threads capacity store clock) steps server)
    (run' : TransitionSystem.Run step (startWith threads' capacity' store' clock') steps' server')
    {client client' : Socket} {connection connection' : Connection}
    (found : server.connections.lookup client = some connection)
    (found' : server'.connections.lookup client' = some connection')
    (same : connection.received = connection'.received)
    (away : server.position.client? ≠ some client)
    (away' : server'.position.client? ≠ some client')
    (quiet
      : TransitionSystem.Along (fun server action => ¬ server.DropsLine connection.id action) steps)
    (quiet'
      : TransitionSystem.Along (fun server action => ¬ server.DropsLine connection'.id action)
          steps')
    : calls connection.id steps = (linesOf connection.received).zipIdx
      ∧ calls connection'.id steps' = calls connection.id steps
      ∧ connection.readBuffer = (Delimited.pieces newline connection.received).2
      ∧ connection'.readBuffer = connection.readBuffer
      ∧ ∀ (server : Server) client connection,
          server.position = .reading client
          → server.connections.lookup client = some connection
          → ∃ turns final,
              TransitionSystem.Run step server turns final
              ∧ (∀ entry ∈ turns, entry.2 = .readLine ∨ entry.2 = .process)
              ∧ final.position = .idle := by
  obtain ⟨lines, rest⟩ := framed_of_run run found away quiet
  obtain ⟨lines', rest'⟩ := framed_of_run run' found' away' quiet'
  rw [← same] at lines' rest'
  exact ⟨lines, lines'.trans lines.symm, rest, rest'.trans rest.symm,
    fun server client connection reads found => readLoop_ends reads found⟩

/-- A carriage return is cut from its newline, and a blank line comes on its own. -/
theorem framing_independent_cut
    : ∃ steps steps' server server' connection connection',
        TransitionSystem.Run step (startWith 1 10 (.empty 1024 0) 0) steps server
        ∧ TransitionSystem.Run step (startWith 1 10 (.empty 1024 0) 0) steps' server'
        ∧ server.connections.lookup 5 = some connection
        ∧ server'.connections.lookup 5 = some connection'
        ∧ calls 0 steps = [(ascii "a", 0), (ascii "b", 1)]
        ∧ calls 0 steps' = [(ascii "a", 0), (ascii "b", 1)]
        ∧ connection.readBuffer = ascii "c"
        ∧ connection'.readBuffer = ascii "c" := by
  have traced
      : TransitionSystem.trace step (startWith 1 10 (.empty 1024 0) 0)
          [.accept 5 [], .recv 5 (some (ascii "a\r\n\nb\nc")), .readLine, .process, .readLine,
            .readLine, .process, .readLine] = some _ := rfl
  have traced'
      : TransitionSystem.trace step (startWith 1 10 (.empty 1024 0) 0)
          [.accept 5 [], .recv 5 (some (ascii "a\r")), .readLine, .recv 5 (some (ascii "\n")),
            .readLine, .process, .readLine, .recv 5 (some (ascii "\nb\nc")), .readLine, .readLine,
            .process, .readLine] = some _ := rfl
  have run := TransitionSystem.run_of_trace traced
  have run' := TransitionSystem.run_of_trace traced'
  have framed := @framing_independent _ _ _ _ _ _ _ _ _ _ _ _ run run' 5 5 _ _ rfl rfl rfl nofun
    nofun (@whole_of_lines _ _ _ _ _ _ run 5 _ 0 rfl rfl rfl)
    (@whole_of_lines _ _ _ _ _ _ run' 5 _ 0 rfl rfl rfl)
  obtain ⟨lines, lines', rest, rest', -⟩ := framed
  have numbered := lines.trans (show _ = [(ascii "a", 0), (ascii "b", 1)] from rfl)
  have left := rest.trans (show _ = ascii "c" from rfl)
  exact ⟨_, _, _, _, _, _, run, run', rfl, rfl, numbered, lines'.trans numbered, left,
    rest'.trans left⟩

end Server

end InMemoryDB
