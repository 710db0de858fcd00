import InMemoryDB.Network.Backpressure

/-! The main loop of the reactor, round by round: it drains results, lets paused connections
read again, builds its poll set, and handles the events of the poll.
-/

namespace InMemoryDB

/-- Where a round is: at its start, in `drain_completion_queue`, in front of the test of the
queue, behind `rebuild_poll_set`, or in the loop over the events.
-/
inductive LoopPhase where
  | top
  | draining
  | testing
  | polling
  | handling
  deriving DecidableEq

/-- The server with its main loop. Of the poll set there are the sockets whose events are still
to be handled, those of them registered for reading, and those registered for writing. For
proofs there are the connections that the 90% rule has paused, as long as they are open and no
round has found the queue below 70%.
-/
structure ReactorLoop where
  server : Server
  phase : LoopPhase := .top
  polled : Finset Socket := ∅
  readable : Finset Socket := ∅
  writable : Finset Socket := ∅
  held : Finset Socket := ∅

/-- A turn of the server as in `Action`, the part of the loop from the test of the queue to the
poll, and the end of a round.
-/
inductive LoopAction where
  | server (action : Action)
  | rebuild
  | next

/-- The connection that the read loop is at. -/
def Position.client? : Position → Option Socket
  | .reading client => some client
  | .processing request => some request.client
  | .idle | .draining _ => none

namespace Server

/-- The queue is less than 70% full. -/
def queueUnder70 (server : Server) : Bool :=
  server.pool.queue.length * 10 < server.pool.maxQueueSize * 7

/-- The connection that a turn of the read loop pauses for the queue and not for its depth. -/
def heldBack (server : Server) : Finset Socket :=
  match server.position with
  | .reading client =>
      match server.connections.lookup client with
      | none => ∅
      | some connection =>
          match connection.readTurn server.queueOver90 with
          | .pause _ => if connection.inFlightRequests < maxPipelineDepth then {client} else ∅
          | .done | .skip _ | .issue .. => ∅
  | .idle | .draining _ | .processing _ => ∅

end Server

-----------------------------------------------------------------------------------------
-- What a turn does to one connection
-----------------------------------------------------------------------------------------

namespace Server

/-- All that a turn, unless it is the one that unpauses, can do to a connection that is open
after it.
-/
inductive Handles (server next : Server) (client : Socket) : Connection → Prop
  | kept {connection changed} (found : server.connections.lookup client = some connection)
    (readBuffer : changed.readBuffer = connection.readBuffer)
    (received : changed.received = connection.received)
    (issued : changed.issued = connection.issued)
    (inFlight : changed.inFlightRequests ≤ connection.inFlightRequests)
    (paused : client ∈ next.pausedReads ↔ client ∈ server.pausedReads)
    (position : next.position.client? = some client ↔ server.position.client? = some client)
    : Handles server next client changed
  | opened {ip} (closed : server.connections.lookup client = none)
    (paused : next.pausedReads = server.pausedReads)
    : Handles server next client { clientIp := ip, id := server.accepted }
  | received {connection} (found : server.connections.lookup client = some connection)
    (chunk : Bytes) (calm : client ∉ server.pausedReads)
    (paused : next.pausedReads = server.pausedReads)
    (reads : next.position.client? = some client)
    : Handles server next client
        { connection with
          readBuffer := connection.readBuffer ++ chunk
          received := connection.received ++ chunk }
  | finished {connection} (found : server.connections.lookup client = some connection)
    (reads : server.position = .reading client) (none : newline ∉ connection.readBuffer)
    (paused : next.pausedReads = server.pausedReads)
    : Handles server next client connection
  | skipped {connection line rest} (found : server.connections.lookup client = some connection)
    (reads : server.position = .reading client)
    (cut : connection.readBuffer = line ++ newline :: rest) (absent : newline ∉ line)
    (empty : stripCr line = []) (paused : next.pausedReads = server.pausedReads)
    (position : next.position.client? = some client)
    : Handles server next client { connection with readBuffer := rest }
  | stopped {connection line rest} (found : server.connections.lookup client = some connection)
    (reads : server.position = .reading client)
    (cut : connection.readBuffer = line ++ newline :: rest) (absent : newline ∉ line)
    (filled : stripCr line ≠ [])
    (paused : next.pausedReads = insert client server.pausedReads)
    (position : next.position = .idle)
    : Handles server next client { connection with readBuffer := rest }
  | issued {connection line rest} (found : server.connections.lookup client = some connection)
    (reads : server.position = .reading client)
    (cut : connection.readBuffer = line ++ newline :: rest) (absent : newline ∉ line)
    (filled : stripCr line ≠ []) (paused : next.pausedReads = server.pausedReads)
    (position : next.position.client? = some client)
    : Handles server next client
        { connection with
          toConnectionState := connection.toConnectionState.issue rest
          issued := connection.issued ++ [stripCr line] }

variable {server next : Server} {action : Action} {client other : Socket}
  {connection changed : Connection}

/-- `recv` is only called on a connection that is not paused. -/
theorem calm_of_recv {chunk : Option Bytes}
    (taken : server.step (.recv client chunk) = some next)
    : client ∉ server.pausedReads := by
  cases position : server.position with
  | idle =>
      simp only [step, position] at taken
      split at taken
      · cases taken
      · split at taken
        · cases taken
        · assumption
  | draining | reading | processing => simp [step, position] at taken

/-- A turn that has to do with another connection. -/
theorem handles_other (there : next.connections.lookup client = some changed)
    (found : next.connections.lookup client = server.connections.lookup client)
    (paused : client ∈ next.pausedReads ↔ client ∈ server.pausedReads)
    (position : next.position.client? = some client ↔ server.position.client? = some client)
    : server.Handles next client changed :=
  .kept (found.symm.trans there) rfl rfl rfl le_rfl paused position

/-- A turn that changes one connection in place and leaves the others. -/
theorem handles_insert {touched : Connection}
    (inserted : next.connections = server.connections.insert client touched)
    (there : next.connections.lookup other = some changed)
    (own : server.Handles next client touched)
    (paused
      : other ≠ client → (other ∈ next.pausedReads ↔ other ∈ server.pausedReads))
    (position
      : other ≠ client
        → (next.position.client? = some other ↔ server.position.client? = some other))
    : server.Handles next other changed := by
  rw [inserted] at there
  rcases lookup_insert_cases there with ⟨rfl, rfl⟩ | ⟨different, known⟩
  · exact own
  · refine .kept known rfl rfl rfl le_rfl (paused different) (position different)

/-- The loop is at no other connection than its own. -/
theorem client?_ne {position : Position} (own : position.client? = some client)
    (different : other ≠ client)
    : position.client? ≠ some other := by
  rw [own]
  exact fun same => different (Option.some.inj same).symm

/-- A turn of the read loop, by cases on what the turn comes to. -/
theorem handles_readLine (reads : server.position = .reading client)
    (found : server.connections.lookup client = some connection)
    (there : (server.readLine client connection).connections.lookup other = some changed)
    : server.Handles (server.readLine client connection) other changed := by
  have here : server.position.client? = some client := by rw [reads]; rfl
  have elsewhere (different : other ≠ client) := client?_ne here different
  rcases connection.readTurn_cases server.queueOver90 with
    ⟨cut, turn⟩
    | ⟨line, rest, whole, absent, -,
        ⟨empty, turn⟩ | ⟨filled, -, turn⟩ | ⟨filled, -, turn⟩⟩
  · simp only [readLine, turn] at there ⊢
    by_cases same : other = client
    · subst other
      obtain rfl := Option.some.inj (found.symm.trans there)
      exact .finished found reads (Delimited.splitFirst_eq_none.mp cut) rfl
    · exact handles_other there rfl Iff.rfl
        (iff_of_false (by simp [Position.client?]) (elsewhere same))
  · simp only [readLine, turn] at there ⊢
    exact handles_insert rfl there (.skipped found reads whole absent empty rfl here)
      (fun _ => Iff.rfl) fun _ => Iff.rfl
  · simp only [readLine, turn] at there ⊢
    refine handles_insert rfl there (.stopped found reads whole absent filled rfl rfl) ?_ ?_
    · exact fun different => by simp [different]
    · exact fun different => iff_of_false (by simp [Position.client?]) (elsewhere different)
  · simp only [readLine, turn] at there ⊢
    refine handles_insert rfl there (.issued found reads whole absent filled rfl rfl)
      (fun _ => Iff.rfl) ?_
    exact fun different => iff_of_false (client?_ne (by rfl) different) (elsewhere different)

/-- Every other turn of the server is one of these, by cases on what it does. -/
theorem handles_of_step (taken : server.step action = some next) (stays : action ≠ .unpause)
    (there : next.connections.lookup client = some changed)
    : server.Handles next client changed := by
  cases takes_of_step taken with
  | readLine reads found => exact handles_readLine reads found there
  | @accepted opened ip idle closed =>
      exact handles_insert rfl there (.opened closed rfl) (fun _ => Iff.rfl) fun _ => Iff.rfl
  | @received own chunk connection idle found =>
      refine handles_insert rfl there (.received found chunk (calm_of_recv taken) rfl rfl)
        (fun _ => Iff.rfl) ?_
      intro different
      exact iff_of_false (client?_ne (by rfl) different) (by rw [idle]; simp [Position.client?])
  | @disconnected action closed idle =>
      have open' := there
      rcases eq_or_ne client closed with rfl | different
      · simp [disconnect] at there
      · refine handles_other there ?_ ?_ Iff.rfl
        · exact Finmap.lookup_erase_ne different
        · simp [disconnect, different]
  | @written own sent connection count found =>
      refine handles_insert rfl there ?_ (fun _ => Iff.rfl) fun _ => Iff.rfl
      exact .kept found (ConnectionState.input_written count _).2 rfl rfl
        (ConnectionState.inFlightRequests_written count _).le Iff.rfl Iff.rfl
  | @deliver result rest drains =>
      have away (handle : Socket)
          : (Position.draining rest).client? = some handle
            ↔ server.position.client? = some handle := by
        rw [drains]
        exact Iff.rfl
      cases found : server.connections.lookup result.clientFd with
      | none =>
          simp only [deliver, found] at there ⊢
          exact handles_other there rfl Iff.rfl (away client)
      | some connection =>
          simp only [deliver, found] at there ⊢
          refine handles_insert rfl there ?_ (fun _ => Iff.rfl) fun _ => away client
          exact .kept found (ConnectionState.input_place result _).2 rfl rfl
            (ConnectionState.inFlightRequests_place result _) Iff.rfl (away _)
  | process processes =>
      refine handles_other there rfl Iff.rfl ?_
      rw [processes]
      exact Iff.rfl
  | drain idle =>
      refine handles_other there rfl Iff.rfl ?_
      rw [idle]
      exact Iff.rfl
  | drained drains =>
      refine handles_other there rfl Iff.rfl ?_
      rw [drains]
      exact Iff.rfl
  | unpause => exact absurd rfl stays
  | rejected | pop | execute | post | sweep => exact handles_other there rfl Iff.rfl Iff.rfl

/-- Only open connections are paused. -/
def PausedOpen (server : Server) : Prop :=
  ∀ client ∈ server.pausedReads, client ∈ server.connections

/-- Every turn keeps this; a connection that is closed is not paused any more. -/
theorem PausedOpen.step (among : server.PausedOpen) (taken : server.step action = some next)
    (stays : action ≠ .unpause)
    : next.PausedOpen := by
  have inserted (client : Socket) (touched : Connection) {other : Socket}
      (there : other ∈ server.connections)
      : other ∈ server.connections.insert client touched :=
    Finmap.mem_insert.mpr (.inr there)
  cases takes_of_step taken with
  | @readLine client connection reads found =>
      unfold readLine
      split
      · exact among
      · exact fun other paused => inserted _ _ (among other paused)
      · intro other paused
        rcases Finset.mem_insert.mp paused with rfl | before
        · exact Finmap.mem_insert.mpr (.inl rfl)
        · exact inserted _ _ (among other before)
      · exact fun other paused => inserted _ _ (among other paused)
  | deliver =>
      unfold deliver
      split
      · exact among
      · exact fun other paused => inserted _ _ (among other paused)
  | accepted | received | written => exact fun other paused => inserted _ _ (among other paused)
  | disconnected client idle =>
      intro other paused
      obtain ⟨different, before⟩ := Finset.mem_erase.mp paused
      exact Finmap.mem_erase.mpr ⟨different, among other before⟩
  | unpause => exact absurd rfl stays
  | rejected | process | drain | drained | pop | execute | post | sweep => exact among

/-- Between two calls the reactor is at no connection. -/
theorem client?_ne_of_idle (idle : server.position = .idle) (client : Socket)
    : server.position.client? ≠ some client := by
  rw [idle]
  exact nofun

/-- Nor is it at one while it drains results. -/
theorem client?_ne_of_draining {results : List TaskResult}
    (drains : server.position = .draining results) (client : Socket)
    : server.position.client? ≠ some client := by
  rw [drains]
  exact nofun

/-- The reactor only gets to a connection with `recv`. -/
theorem client?_of_step (taken : server.step action = some next)
    (other : ∀ client chunk, action ≠ .recv client chunk)
    (nowhere : server.position.client? = none)
    : next.position.client? = none := by
  cases takes_of_step taken with
  | received => exact absurd rfl (other _ _)
  | readLine reads => simp [reads, Position.client?] at nowhere
  | process processes => simp [processes, Position.client?] at nowhere
  | deliver =>
      unfold deliver
      split <;> rfl
  | drain | drained => rfl
  | accepted | rejected | disconnected | written | unpause | pop | execute | post | sweep =>
      exact nowhere

@[simp] theorem connections_unpause (server : Server)
    : server.unpause.connections = server.connections := by
  unfold unpause
  split <;> rfl

@[simp] theorem position_unpause (server : Server)
    : server.unpause.position = server.position := by
  unfold unpause
  split <;> rfl

/-- Who stays paused when the queue has been tested. -/
theorem mem_pausedReads_unpause
    : client ∈ server.unpause.pausedReads
      ↔ client ∈ server.pausedReads
        ∧ server.queueUnder70 = false
        ∧ ∀ connection,
            server.connections.lookup client = some connection
            → maxPipelineDepth ≤ connection.inFlightRequests := by
  cases under : server.queueUnder70 with
  | true =>
      simp only [queueUnder70, decide_eq_true_eq] at under
      simp [unpause, under]
  | false =>
      simp only [queueUnder70, decide_eq_false_iff_not] at under
      simp only [unpause, under, if_false, Finset.mem_filter, true_and]
      refine and_congr_right fun paused => ?_
      cases server.connections.lookup client <;> simp

theorem PausedOpen.unpause (among : server.PausedOpen) : server.unpause.PausedOpen := by
  intro client paused
  rw [connections_unpause]
  exact among client (mem_pausedReads_unpause.mp paused).1

end Server

namespace ReactorLoop

/-- A server with a pool of any capacity. -/
def start (threads capacity : ℕ) (store : LoggedStore) (clock : Int) : ReactorLoop :=
  { server :=
      { Server.start threads store clock with
        pool := { threadCount := threads, maxQueueSize := capacity } } }

/-- The reactor drains at the start of a round. Among the events a new connection comes first;
of one connection a hangup comes alone, and reading before writing. The workers and the sweeper
take their turns at any time.
-/
def permits (loop : ReactorLoop) : Action → Bool
  | .drain => loop.phase = .top
  | .deliver => loop.phase = .draining
  | .unpause => false
  | .accept .. => loop.phase = .polling
  | .recv client _ => client ∈ loop.readable
  | .write client _ => client ∈ loop.writable
  | .hangup client => client ∈ loop.polled
  | .readLine | .process | .pop _ | .execute .. | .post _ | .sweep .. => true

/-- The round after a turn of the server. -/
def after (action : Action) (server : Server) (loop : ReactorLoop) : ReactorLoop where
  server := server
  phase :=
    match action with
    | .drain => .draining
    | .deliver =>
        match server.position with
        | .draining _ => .draining
        | _ => .testing
    | .accept .. | .recv .. | .write .. | .hangup _ => .handling
    | _ => loop.phase
  polled :=
    match action with
    | .recv client _ | .write client _ | .hangup client => loop.polled.erase client
    | _ => loop.polled
  readable :=
    match action with
    | .recv client _ | .write client _ | .hangup client => loop.readable.erase client
    | _ => loop.readable
  writable :=
    match action with
    | .write client _ | .hangup client => loop.writable.erase client
    | _ => loop.writable
  held :=
    (match action with
      | .readLine => loop.held ∪ loop.server.heldBack
      | _ => loop.held).filter (· ∈ server.connections)

/-- The round when the poll set has been built. Every open connection is in it, for reading
unless it is paused, and for writing if it has something to write.
-/
def rebuild (loop : ReactorLoop) : ReactorLoop :=
  let server := loop.server.unpause
  { server := server
    phase := .polling
    polled := server.connections.keys
    readable := server.connections.keys.filter (· ∉ server.pausedReads)
    writable :=
      server.connections.keys.filter fun client =>
        (server.connections.lookup client).any fun connection => connection.writePending
    held := if loop.server.queueUnder70 then ∅ else loop.held }

/-- One turn, if the thread can take it. -/
def step (loop : ReactorLoop) : LoopAction → Option ReactorLoop
  | .server action =>
      if loop.permits action then
        (loop.server.step action).map fun server => loop.after action server
      else none
  | .rebuild => if loop.phase = .testing then some loop.rebuild else none
  | .next =>
      -- a poll that fails or finds no event goes to the next round at once
      match loop.phase, loop.server.position with
      | .polling, .idle | .handling, .idle =>
          some
            { loop with
              phase := .top
              polled := ∅
              readable := ∅
              writable := ∅ }
      | _, _ => none

/-- The loop has a property whenever it has built its poll set. -/
def AtRebuild (property : ReactorLoop → Prop) (loop : ReactorLoop) : LoopAction → Prop
  | .rebuild => property loop.rebuild
  | .server _ | .next => True

/-- All that a turn can do to the round. -/
inductive Takes (loop : ReactorLoop) : LoopAction → ReactorLoop → Prop
  | server {action server} (permitted : loop.permits action = true)
    (taken : loop.server.step action = some server)
    : Takes loop (.server action) (loop.after action server)
  | rebuild (tests : loop.phase = .testing) : Takes loop .rebuild loop.rebuild
  | next (idle : loop.server.position = .idle)
    : Takes loop .next
        { loop with phase := .top, polled := ∅, readable := ∅, writable := ∅ }

variable {loop next : ReactorLoop} {action : LoopAction}

/-- A step is one of these, by cases on the action. -/
theorem takes_of_step (taken : loop.step action = some next) : loop.Takes action next := by
  cases action with
  | server action =>
      simp only [step] at taken
      split at taken
      · rename_i permitted
        obtain ⟨server, moved, rfl⟩ := Option.map_eq_some_iff.mp taken
        exact .server permitted moved
      · cases taken
  | rebuild =>
      simp only [step] at taken
      split at taken
      · rename_i tests
        obtain rfl := Option.some.inj taken
        exact .rebuild tests
      · cases taken
  | next =>
      simp only [step] at taken
      split at taken
      · rename_i idle
        obtain rfl := Option.some.inj taken
        exact .next idle
      · rename_i idle
        obtain rfl := Option.some.inj taken
        exact .next idle
      · cases taken

/-- Paused connections are only let go when the poll set is rebuilt. -/
theorem stays_of_permits {action : Action} (permitted : loop.permits action = true)
    : action ≠ .unpause := by
  intro unpauses
  obtain rfl := unpauses
  cases permitted

/-- Only open connections are paused, and the reactor only is at a connection while it handles
the events of a round.
-/
structure Orderly (loop : ReactorLoop) : Prop where
  among : loop.server.PausedOpen
  nowhere : loop.phase ≠ .handling → loop.server.position.client? = none

namespace Orderly

theorem start (threads capacity : ℕ) (store : LoggedStore) (clock : Int)
    : (start threads capacity store clock).Orderly where
  among := by simp [Server.PausedOpen, ReactorLoop.start, Server.start]
  nowhere _ := rfl

/-- Every turn keeps this, by cases on the turn. -/
theorem step (orderly : loop.Orderly) (taken : loop.step action = some next) : next.Orderly := by
  cases takes_of_step taken with
  | @server action server permitted moved =>
      refine ⟨orderly.among.step moved (stays_of_permits permitted), ?_⟩
      intro early
      cases action with
      | recv | accept | write | hangup => exact absurd rfl early
      | drain =>
          have top : loop.phase = .top := of_decide_eq_true permitted
          exact Server.client?_of_step moved (by simp) (orderly.nowhere (by simp [top]))
      | deliver =>
          have draining : loop.phase = .draining := of_decide_eq_true permitted
          exact Server.client?_of_step moved (by simp) (orderly.nowhere (by simp [draining]))
      | unpause => cases permitted
      | readLine | process | pop | execute | post | sweep =>
          exact Server.client?_of_step moved (by simp) (orderly.nowhere early)
  | rebuild tests =>
      refine ⟨orderly.among.unpause, fun _ => ?_⟩
      have nowhere := orderly.nowhere (by simp [tests])
      rwa [← Server.position_unpause] at nowhere
  | next idle =>
      refine ⟨orderly.among, fun _ => ?_⟩
      rw [idle]
      rfl

end Orderly

end ReactorLoop

end InMemoryDB
