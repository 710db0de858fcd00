import InMemoryDB.Network.Connection
import InMemoryDB.Network.Pipeline
import InMemoryDB.Library.Runs
import InMemoryDB.Persistence.LoggedStore

/-! The server at work: the reactor thread with its connections, the pool with its workers,
and the sweeper, each taking its turn in any order.
-/

namespace InMemoryDB

def maxConnections : ℕ := 10000

/-- Where the reactor thread is: between two calls, in the loop of
`drain_completion_queue`, in the loop of `handle_read`, or about to call the pipeline there.
-/
inductive Position where
  | idle
  | draining (results : List TaskResult)
  | reading (client : Socket)
  | processing (request : Request)

/-- A worker that has popped a task, and its response once the task is executed, which is
never empty.
-/
structure BusyWorker where
  worker : ℕ
  task : Task
  response : Option Bytes := none
  filled : response ≠ some [] := by simp

/-- The reactor, the pool and the store. The workers that hold a task are kept in the order
in which they have popped them. The number of connections ever accepted is for proofs.
-/
structure Server where
  connections : Finmap (fun _ : Socket => Connection) := ∅
  pausedReads : Finset Socket := ∅
  totalConnections : ℕ := 0
  position : Position := .idle
  pool : WorkerPool
  busy : List BusyWorker := []
  store : LoggedStore
  clock : Int
  accepted : ℕ := 0

/-- A turn of one of the threads. The arguments are what it gets from outside: the handle
that `accept` returns, the outcomes of `recv` and `send`, the clock, and what the arenas
refuse.
-/
inductive Action where
  | accept (client : Socket) (ip : Bytes)
  | recv (client : Socket) (chunk : Option Bytes)
  | readLine
  | process
  | write (client : Socket) (sent : Option ℕ)
  | hangup (client : Socket)
  | drain
  | deliver
  | unpause
  | pop (worker : ℕ)
  | execute (worker : ℕ) (now : Int) (refusals : Refusals)
  | post (worker : ℕ)
  | sweep (now : Int) (key : Bytes)

namespace Server

/-- A server that has just been started, on a store that may have been replayed. -/
def start (threadCount : ℕ) (store : LoggedStore) (clock : Int) : Server :=
  { pool := { threadCount := threadCount }, store := store, clock := clock }

/-- A server with a pool of any capacity. -/
def startWith (threadCount capacity : ℕ) (store : LoggedStore) (clock : Int) : Server :=
  { start threadCount store clock with
    pool := { threadCount := threadCount, maxQueueSize := capacity } }

/-- A connection that is open keeps its place in the map with a new state. -/
def putConnection (client : Socket) (connection : Connection) (server : Server) : Server :=
  { server with connections := server.connections.insert client connection }

-----------------------------------------------------------------------------------------
-- The reactor
-----------------------------------------------------------------------------------------

def acceptConnection (client : Socket) (ip : Bytes) (server : Server) : Server :=
  if server.totalConnections ≥ maxConnections then server
  else
    { server.putConnection client { clientIp := ip, id := server.accepted } with
      totalConnections := server.totalConnections + 1
      accepted := server.accepted + 1 }

def disconnect (client : Socket) (server : Server) : Server :=
  { server with
    connections := server.connections.erase client
    pausedReads := server.pausedReads.erase client
    totalConnections :=
      if server.totalConnections > 0 then server.totalConnections - 1
      else server.totalConnections }

/-- The start of `handle_read`, with what `recv` returns. -/
def beginRead (client : Socket) (chunk : Bytes) (connection : Connection) (server : Server)
    : Server :=
  { server.putConnection client
      { connection with
        readBuffer := connection.readBuffer ++ chunk
        received := connection.received ++ chunk } with
    position := .reading client }

/-- The queue is more than 90% full. -/
def queueOver90 (server : Server) : Bool :=
  server.pool.queue.length * 10 > server.pool.maxQueueSize * 9

/-- A turn of the loop of `handle_read`. -/
def readLine (client : Socket) (connection : Connection) (server : Server) : Server :=
  match connection.readTurn server.queueOver90 with
  | .done => { server with position := .idle }
  | .skip rest => server.putConnection client { connection with readBuffer := rest }
  | .pause rest =>
      { server.putConnection client { connection with readBuffer := rest } with
        pausedReads := insert client server.pausedReads
        position := .idle }
  | .issue line rest =>
      { server.putConnection client
          { connection with
            toConnectionState := connection.toConnectionState.issue rest
            issued := connection.issued ++ [line] } with
        position :=
          .processing
            {
              client := client,
              line := line,
              seqId := connection.nextSeqIssue,
              clientIp := connection.clientIp,
              origin := connection.id
            } }

/-- The call of the pipeline, after which the loop of `handle_read` goes on. -/
def process (request : Request) (server : Server) : Server :=
  { server with
    pool := Pipeline.process request server.pool
    position := .reading request.client }

/-- `handle_write`, with what `send` returns. It does not send without need. -/
def handleWrite (client : Socket) (sent : Option ℕ) (connection : Connection)
    (server : Server)
    : Server :=
  match sent with
  | none =>
      if connection.writeBuffer = [] then
        server.putConnection client
          { connection with toConnectionState := connection.toConnectionState.written 0 }
      else server.disconnect client
  | some count =>
      server.putConnection client
        { connection with
          toConnectionState := connection.toConnectionState.written count
          sent := connection.sent ++ connection.writeBuffer.take count }

/-- The start of `drain_completion_queue`. -/
def beginDrain (server : Server) : Server :=
  { server with
    pool := { server.pool with completionQueue := [] }
    position := .draining server.pool.completionQueue }

/-- A turn of the loop of `drain_completion_queue`. -/
def deliver (result : TaskResult) (rest : List TaskResult) (server : Server) : Server :=
  match server.connections.lookup result.clientFd with
  | none => { server with position := .draining rest }
  | some connection =>
      { server.putConnection result.clientFd
          { connection with
            toConnectionState := connection.toConnectionState.place result
            placed := connection.placed ++ [result.origin] } with
        position := .draining rest }

/-- The step of the main loop that lets paused connections read again. -/
def unpause (server : Server) : Server :=
  if server.pool.queue.length * 10 < server.pool.maxQueueSize * 7 then
    { server with pausedReads := ∅ }
  else
    { server with
      pausedReads :=
        server.pausedReads.filter fun client =>
          ¬ (server.connections.lookup client).any fun connection =>
              connection.inFlightRequests < maxPipelineDepth }

-----------------------------------------------------------------------------------------
-- The workers
-----------------------------------------------------------------------------------------

/-- The worker holds no task. -/
def free (worker : ℕ) (server : Server) : Bool :=
  server.busy.all fun busy => busy.worker ≠ worker

/-- The first item that satisfies a condition, with what stands around it. -/
def extract {α : Type} (condition : α → Bool) : List α → Option (List α × α × List α)
  | [] => none
  | item :: rest =>
      if condition item then some ([], item, rest)
      else (extract condition rest).map fun cut => (item :: cut.1, cut.2)

theorem extract_eq_some {α : Type} {condition : α → Bool} {items front back : List α} {item : α}
    (cut : extract condition items = some (front, item, back))
    : items = front ++ item :: back ∧ condition item = true := by
  induction items generalizing front with
  | nil => cases cut
  | cons first rest ih =>
      unfold extract at cut
      split at cut
      · simp_all
      · obtain ⟨⟨others, tail⟩, later, same⟩ := Option.map_eq_some_iff.mp cut
        obtain ⟨rfl, rfl⟩ := Prod.mk.inj same
        obtain ⟨rfl, met⟩ := ih later
        exact ⟨rfl, met⟩

/-- A worker takes the first task of the queue. -/
def pop (worker : ℕ) (task : Task) (rest : List Task) (server : Server) : Server :=
  { server with
    pool := { server.pool with queue := rest }
    busy := server.busy ++ [{ worker := worker, task := task }] }

/-- A worker that holds a task executes its command. -/
def execute (front : List BusyWorker) (busy : BusyWorker) (back : List BusyWorker) (now : Int)
    (refusals : Refusals) (server : Server)
    : Server :=
  let done := busy.task.command.execute refusals now server.store.router server.store.aof
  { server with
    busy :=
      front
        ++ {
          busy with
          response := some done.reply
          filled := by simpa using busy.task.command.reply_ne_nil refusals now _ _
        } :: back
    store := ⟨done.router, done.aof⟩
    clock := now }

/-- A worker that has executed its task posts the result. -/
def post (front : List BusyWorker) (busy : BusyWorker) (back : List BusyWorker)
    (response : Bytes) (server : Server)
    : Server :=
  { server with
    busy := front ++ back
    pool := server.pool.push (busy.task.result response) }

/-- The sweeper evicts one key, if it is dead. -/
def sweep (now : Int) (key : Bytes) (server : Server) : Server :=
  { server with
    store :=
      let (router, aof) := TimingWheel.sweepEntry now key server.store.router server.store.aof
      ⟨router, aof⟩
    clock := now }

-----------------------------------------------------------------------------------------
-- Steps
-----------------------------------------------------------------------------------------

/-- One turn, if the thread is where it can take it. The clock does not go back. -/
def step (server : Server) (action : Action) : Option Server :=
  match action, server.position with
  | .accept client ip, .idle =>
      if client ∈ server.connections then none else some (server.acceptConnection client ip)
  | .recv client chunk, .idle =>
      match server.connections.lookup client with
      | none => none
      | some connection =>
          if client ∈ server.pausedReads then none
          else
            match chunk with
            | none => some (server.disconnect client)
            | some chunk =>
                if 1 ≤ chunk.length ∧ chunk.length ≤ 4096 then
                  some (server.beginRead client chunk connection)
                else none
  | .readLine, .reading client =>
      (server.connections.lookup client).map fun connection =>
        server.readLine client connection
  | .process, .processing request => some (server.process request)
  | .write client sent, .idle =>
      match server.connections.lookup client with
      | none => none
      | some connection =>
          if sent.all fun count => count ≤ connection.writeBuffer.length then
            some (server.handleWrite client sent connection)
          else none
  | .hangup client, .idle =>
      if client ∈ server.connections then some (server.disconnect client) else none
  | .drain, .idle => some server.beginDrain
  | .deliver, .draining [] => some { server with position := .idle }
  | .deliver, .draining (result :: rest) => some (server.deliver result rest)
  | .unpause, .idle => some server.unpause
  | .pop worker, _ =>
      match server.pool.queue with
      | [] => none
      | task :: rest =>
          if worker < server.pool.threadCount ∧ server.free worker then
            some (server.pop worker task rest)
          else none
  | .execute worker now refusals, _ =>
      match extract (fun busy => busy.worker = worker && busy.response.isNone) server.busy with
      | none => none
      | some (front, busy, back) =>
          if server.clock ≤ now then some (server.execute front busy back now refusals)
          else none
  | .post worker, _ =>
      match extract (fun busy => busy.worker = worker && busy.response.isSome) server.busy with
      | none => none
      | some (front, busy, back) =>
          busy.response.map fun response => server.post front busy back response
  | .sweep now key, _ => if server.clock ≤ now then some (server.sweep now key) else none
  | _, _ => none

/-- All that a turn can do. -/
inductive Takes (server : Server) : Action → Server → Prop
  | accepted {client ip} (idle : server.position = .idle)
    (closed : server.connections.lookup client = none)
    : Takes server (.accept client ip)
        { server.putConnection client { clientIp := ip, id := server.accepted } with
          totalConnections := server.totalConnections + 1
          accepted := server.accepted + 1 }
  | rejected {client ip} : Takes server (.accept client ip) server
  | received {client chunk connection} (idle : server.position = .idle)
    (found : server.connections.lookup client = some connection)
    : Takes server (.recv client (some chunk)) (server.beginRead client chunk connection)
  | disconnected {action} (client : Socket) (idle : server.position = .idle)
    : Takes server action (server.disconnect client)
  | readLine {client connection} (reads : server.position = .reading client)
    (found : server.connections.lookup client = some connection)
    : Takes server .readLine (server.readLine client connection)
  | process {request} (processes : server.position = .processing request)
    : Takes server .process (server.process request)
  | written {client sent connection} (count : ℕ)
    (found : server.connections.lookup client = some connection)
    : Takes server (.write client sent)
        (server.putConnection client
          { connection with
            toConnectionState := connection.toConnectionState.written count
            sent := connection.sent ++ connection.writeBuffer.take count })
  | drain (idle : server.position = .idle) : Takes server .drain server.beginDrain
  | drained (drains : server.position = .draining [])
    : Takes server .deliver { server with position := .idle }
  | deliver {result rest} (drains : server.position = .draining (result :: rest))
    : Takes server .deliver (server.deliver result rest)
  | unpause (paused : Finset Socket)
    : Takes server .unpause { server with pausedReads := paused }
  | pop {worker task rest} (first : server.pool.queue = task :: rest)
    : Takes server (.pop worker) (server.pop worker task rest)
  | execute {worker now refusals front busy back} (holds : server.busy = front ++ busy :: back)
    (waits : busy.response = none) (advances : server.clock ≤ now)
    : Takes server (.execute worker now refusals)
        (server.execute front busy back now refusals)
  | post {worker front busy back response} (holds : server.busy = front ++ busy :: back)
    (done : busy.response = some response)
    : Takes server (.post worker) (server.post front busy back response)
  | sweep {now key} (advances : server.clock ≤ now)
    : Takes server (.sweep now key) (server.sweep now key)

/-- A step is one of these, by cases on the action and the place of the reactor. -/
theorem takes_of_step {server next : Server} {action : Action}
    (taken : server.step action = some next)
    : server.Takes action next := by
  unfold step at taken
  split at taken
  case h_1 client ip idle =>
    split at taken
    · cases taken
    · rename_i closed
      obtain rfl := Option.some.inj taken
      unfold acceptConnection
      split
      · exact .rejected
      · exact .accepted idle (Finmap.lookup_eq_none.mpr closed)
  case h_2 client chunk idle =>
    split at taken
    · cases taken
    · rename_i connection found
      split at taken
      · cases taken
      · split at taken
        · obtain rfl := Option.some.inj taken
          exact .disconnected client idle
        · split at taken
          · obtain rfl := Option.some.inj taken
            exact .received idle found
          · cases taken
  case h_3 client reads =>
    obtain ⟨connection, found, rfl⟩ := Option.map_eq_some_iff.mp taken
    exact .readLine reads found
  case h_4 request processes =>
    obtain rfl := Option.some.inj taken
    exact .process processes
  case h_5 client sent idle =>
    split at taken
    · cases taken
    · rename_i connection found
      split at taken
      · obtain rfl := Option.some.inj taken
        unfold handleWrite
        split
        · split
          · rename_i empty
            have written : server.Takes (.write client none) _ := .written 0 found
            simpa [empty] using written
          · exact .disconnected client idle
        · exact .written _ found
      · cases taken
  case h_6 client idle =>
    split at taken
    · obtain rfl := Option.some.inj taken
      exact .disconnected client idle
    · cases taken
  case h_7 idle =>
    obtain rfl := Option.some.inj taken
    exact .drain idle
  case h_8 drains =>
    obtain rfl := Option.some.inj taken
    exact .drained drains
  case h_9 result rest drains =>
    obtain rfl := Option.some.inj taken
    exact .deliver drains
  case h_10 idle =>
    obtain rfl := Option.some.inj taken
    unfold unpause
    split
    · exact .unpause _
    · exact .unpause _
  case h_11 worker =>
    split at taken
    · cases taken
    · rename_i task rest first
      split at taken
      · obtain rfl := Option.some.inj taken
        exact .pop first
      · cases taken
  case h_12 worker now refusals =>
    split at taken
    · cases taken
    · rename_i front busy back cut
      split at taken
      · rename_i advances
        obtain rfl := Option.some.inj taken
        obtain ⟨holds, met⟩ := extract_eq_some cut
        refine .execute holds ?_ advances
        simp only [Bool.and_eq_true, Option.isNone_iff_eq_none] at met
        exact met.2
      · cases taken
  case h_13 worker =>
    split at taken
    · cases taken
    · rename_i front busy back cut
      obtain ⟨response, done, rfl⟩ := Option.map_eq_some_iff.mp taken
      exact .post (extract_eq_some cut).1 done
  case h_14 now key =>
    split at taken
    · rename_i advances
      obtain rfl := Option.some.inj taken
      exact .sweep advances
    · cases taken
  case h_15 => cases taken

end Server

end InMemoryDB
