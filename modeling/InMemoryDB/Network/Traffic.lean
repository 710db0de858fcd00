import InMemoryDB.Network.Server

/-! The traffic of a server: which numbered requests wait for a response, and which results
are on their way back. Every turn of the server is one move of this traffic or none.
-/

namespace InMemoryDB

/-- A numbered request of a connection, with the handle its result will be addressed to. -/
structure Ticket where
  origin : ℕ
  clientFd : Socket
  sequenceId : ℕ
  deriving DecidableEq

def Task.ticket (task : Task) : Ticket := ⟨task.origin, task.clientFd, task.sequenceId⟩

def Request.ticket (request : Request) : Ticket :=
  ⟨request.origin, request.client, request.seqId⟩

def TaskResult.ticket (result : TaskResult) : Ticket :=
  ⟨result.origin, result.clientFd, result.sequenceId⟩

/-- The open connections, the requests without a result yet, the results that have not
reached the connections, and all results that were ever posted.
-/
structure Traffic where
  connections : Finmap fun _ : Socket => Connection
  unposted : List Ticket
  undelivered : List TaskResult
  posted : List TaskResult
  accepted : ℕ

/-- The request that the reactor is about to hand to the pipeline. -/
def Position.inHand : Position → List Ticket
  | .processing request => [request.ticket]
  | .idle | .draining _ | .reading _ => []

/-- The results that the reactor has taken and not yet placed. -/
def Position.drained : Position → List TaskResult
  | .draining results => results
  | .idle | .reading _ | .processing _ => []

/-- Requests are with the workers, in the queue or in the hand of the reactor. -/
def Server.traffic (server : Server) : Traffic where
  connections := server.connections
  unposted :=
    server.busy.map (fun busy => busy.task.ticket) ++ server.pool.queue.map Task.ticket
      ++ server.position.inHand
  undelivered := server.position.drained ++ server.pool.completionQueue
  posted := server.pool.posted
  accepted := server.accepted

/-- A connection in the map after a change at one handle. -/
theorem lookup_insert_cases {connections : Finmap fun _ : Socket => Connection}
    {client other : Socket} {changed connection : Connection}
    (there : (connections.insert client changed).lookup other = some connection)
    : other = client ∧ connection = changed
      ∨ other ≠ client ∧ connections.lookup other = some connection := by
  by_cases same : other = client
  · subst other
    exact .inl ⟨rfl, (Option.some.inj ((Finmap.lookup_insert _).symm.trans there)).symm⟩
  · exact .inr ⟨same, (Finmap.lookup_insert_of_ne _ same).symm.trans there⟩

theorem lookup_of_lookup_erase {connections : Finmap fun _ : Socket => Connection}
    {client other : Socket} {connection : Connection}
    (there : (connections.erase client).lookup other = some connection)
    : connections.lookup other = some connection := by
  by_cases same : other = client
  · subst other
    simp at there
  · rwa [Finmap.lookup_erase_ne same] at there

namespace Traffic

/-- The moves of the traffic. A connection is only opened at the handle that `accept` has
returned.
-/
inductive Moves (traffic : Traffic) : Option Socket → Traffic → Prop
  | stay {opened} : Moves traffic opened traffic
  | accept (client : Socket) (ip : Bytes)
    (closed : traffic.connections.lookup client = none)
    : Moves traffic (some client)
        { traffic with
          connections :=
            traffic.connections.insert client { clientIp := ip, id := traffic.accepted }
          accepted := traffic.accepted + 1 }
  | close {opened} (client : Socket)
    : Moves traffic opened { traffic with connections := traffic.connections.erase client }
  | read {opened client connection} (found : traffic.connections.lookup client = some connection)
    (readBuffer received : Bytes)
    : Moves traffic opened
        { traffic with
          connections :=
            traffic.connections.insert client
              { connection with readBuffer := readBuffer, received := received } }
  | issue {opened client connection} (found : traffic.connections.lookup client = some connection)
    (line rest : Bytes)
    : Moves traffic opened
        { traffic with
          connections :=
            traffic.connections.insert client
              { connection with
                toConnectionState := connection.toConnectionState.issue rest
                issued := connection.issued ++ [line] }
          unposted :=
            traffic.unposted ++ [⟨connection.id, client, connection.nextSeqIssue⟩] }
  | post {opened front ticket back} (result : TaskResult)
    (waits : traffic.unposted = front ++ ticket :: back) (own : result.ticket = ticket)
    (filled : result.response ≠ [])
    : Moves traffic opened
        { traffic with
          unposted := front ++ back
          undelivered := traffic.undelivered ++ [result]
          posted := traffic.posted ++ [result] }
  | place {opened result rest connection} (first : traffic.undelivered = result :: rest)
    (found : traffic.connections.lookup result.clientFd = some connection)
    : Moves traffic opened
        { traffic with
          connections :=
            traffic.connections.insert result.clientFd
              { connection with
                toConnectionState := connection.toConnectionState.place result
                placed := connection.placed ++ [result.origin] }
          undelivered := rest }
  | drop {opened result rest} (first : traffic.undelivered = result :: rest)
    (closed : traffic.connections.lookup result.clientFd = none)
    : Moves traffic opened { traffic with undelivered := rest }
  | write {opened client connection} (found : traffic.connections.lookup client = some connection)
    (count : ℕ)
    : Moves traffic opened
        { traffic with
          connections :=
            traffic.connections.insert client
              { connection with
                toConnectionState := connection.toConnectionState.written count
                sent := connection.sent ++ connection.writeBuffer.take count } }

theorem Moves.of_eq {traffic after : Traffic} {opened : Option Socket}
    (same : after = traffic)
    : traffic.Moves opened after :=
  same ▸ .stay

end Traffic

/-- The handle that `accept` returns. -/
def Action.opened : Action → Option Socket
  | .accept client _ => some client
  | _ => none

namespace Server

/-- A turn of the read loop reads on, or issues one line. -/
theorem moves_of_readLine {server : Server} {client : Socket} {connection : Connection}
    (reads : server.position = .reading client)
    (found : server.connections.lookup client = some connection)
    : server.traffic.Moves none (server.readLine client connection).traffic := by
  have here : server.traffic.connections.lookup client = some connection := found
  have read (rest : Bytes) : server.traffic.Moves none _ := .read here rest connection.received
  unfold readLine
  split
  · exact .of_eq (by simp [traffic, reads, Position.inHand, Position.drained])
  · rename_i rest _
    simpa only [traffic, putConnection, reads] using read rest
  · rename_i rest _
    simpa only [traffic, putConnection, reads, Position.inHand, Position.drained] using read rest
  · rename_i line rest _
    simpa [traffic, putConnection, reads, Position.inHand, Position.drained,
      Request.ticket] using
      Traffic.Moves.issue here line rest

/-- The pipeline posts a refusal, or leaves the request to the workers. -/
theorem moves_of_process {server : Server} {request : Request}
    (processes : server.position = .processing request)
    : server.traffic.Moves none (server.process request).traffic := by
  rcases Pipeline.process_cases request server.pool with ⟨text, filled, refused⟩ | ⟨command, queued⟩
  · have waits : server.traffic.unposted
        = (server.busy.map (fun busy => busy.task.ticket)
            ++ server.pool.queue.map Task.ticket) ++ request.ticket :: [] := by
      simp [traffic, processes, Position.inHand]
    have posted : server.traffic.Moves none _ :=
      .post ⟨request.client, request.seqId, text, request.origin⟩ waits rfl filled
    simpa [traffic, process, refused, Request.reject, WorkerPool.push, processes,
      Position.inHand, Position.drained] using posted
  · exact .of_eq (by simp [traffic, process, queued, processes, Position.inHand, Position.drained,
      Request.ticket, Request.task, Task.ticket])

/-- A result is placed in the connection that has its handle, or dropped. -/
theorem moves_of_deliver {server : Server} {result : TaskResult} {rest : List TaskResult}
    (drains : server.position = .draining (result :: rest))
    : server.traffic.Moves none (server.deliver result rest).traffic := by
  have first : server.traffic.undelivered = result :: (rest ++ server.pool.completionQueue) := by
    simp [traffic, drains, Position.drained]
  unfold deliver
  split
  · rename_i closed
    simpa [traffic, drains, Position.inHand, Position.drained] using
      Traffic.Moves.drop first closed
  · rename_i connection found
    simpa [traffic, putConnection, drains, Position.inHand, Position.drained] using
      Traffic.Moves.place first found

/-- Every turn is one move of the traffic, by cases on what it does. -/
theorem moves_of_takes {server next : Server} {action : Action}
    (taken : server.Takes action next)
    : server.traffic.Moves action.opened next.traffic := by
  cases taken with
  | accepted idle closed =>
      simpa [traffic, putConnection, idle, Action.opened] using Traffic.Moves.accept _ _ closed
  | received idle found =>
      simpa [traffic, beginRead, putConnection, idle, Position.inHand, Position.drained,
        Action.opened] using
        Traffic.Moves.read found _ _
  | disconnected client idle => exact .close client
  | readLine reads found => exact moves_of_readLine reads found
  | process processes => exact moves_of_process processes
  | written count found => exact .write found count
  | drain idle =>
      exact .of_eq (by simp [traffic, beginDrain, idle, Position.inHand, Position.drained])
  | drained drains =>
      exact .of_eq (by simp [traffic, drains, Position.inHand, Position.drained])
  | deliver drains => exact moves_of_deliver drains
  | pop first =>
      exact .of_eq (by simp [traffic, pop, first])
  | execute holds waits advances =>
      exact .of_eq (by simp [traffic, execute, holds])
  | @post worker front busy back response holds done =>
      have waits : server.traffic.unposted
          = front.map (fun busy => busy.task.ticket)
            ++ busy.task.ticket
            :: (back.map (fun busy => busy.task.ticket) ++ server.pool.queue.map Task.ticket
              ++ server.position.inHand) := by
        simp [traffic, holds]
      have filled : response ≠ [] := by
        have filled := busy.filled
        rw [done] at filled
        simpa using filled
      simpa [traffic, post, WorkerPool.push, Action.opened] using
        Traffic.Moves.post (busy.task.result response) waits rfl filled
  | rejected | unpause | sweep => exact .stay

end Server

end InMemoryDB
