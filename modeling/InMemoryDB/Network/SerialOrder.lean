import InMemoryDB.Library.Linearization
import InMemoryDB.Network.Answers
import InMemoryDB.Network.ProgramOrder

/-! The server with all its threads against one that serves a line at a time: whatever its clients
see of the one they could have seen of the other.
-/

namespace InMemoryDB

-----------------------------------------------------------------------------------------
-- A server without threads
-----------------------------------------------------------------------------------------

/-- A store with its log, at a time. -/
structure SerialServer extends LoggedStore where
  clock : Int

namespace SerialServer

/-- A line is answered at once, at some time from now on and with what the arenas have left. -/
inductive Answers : SerialServer → Bytes → Bytes → SerialServer → Prop
  | executed {server : SerialServer} {line : Bytes} {command : ICommand}
    (made : commandOf line = some command) {now : Int} (advances : server.clock ≤ now)
    (refusals : Refusals)
    : Answers server line (command.execute refusals now server.router server.aof).reply
        {
          router := (command.execute refusals now server.router server.aof).router,
          aof := (command.execute refusals now server.router server.aof).aof,
          clock := now
        }
  | refused {server : SerialServer} {line : Bytes} (none : commandOf line = none)
    : Answers server line (refusalOf line) server

/-- The sweeper takes its turn between two lines. -/
inductive Moves : SerialServer → SerialServer → Prop
  | sweep {server : SerialServer} {now : Int} (advances : server.clock ≤ now) (key : Bytes)
    : Moves server
        {
          router := (TimingWheel.sweepEntry now key server.router server.aof).1,
          aof := (TimingWheel.sweepEntry now key server.router server.aof).2,
          clock := now
        }

def specification : Linearization.Specification Bytes Bytes SerialServer := ⟨Answers, Moves⟩

/-- An answer is the text of a reply that can be read back. -/
theorem Answers.plain {server next : SerialServer} {line text : Bytes}
    (answered : Answers server line text next)
    : ∃ reply : Resp.Reply, reply.Plain ∧ text = Resp.encode reply := by
  cases answered with
  | @executed command _ now _ refusals =>
      obtain ⟨reply, plain, said, -⟩ :=
        Answer.exists_means (.executed command refusals now server.router server.aof)
      exact ⟨reply, plain, said⟩
  | refused none =>
      rw [refusalOf]
      split
      · exact ⟨.error (ascii "ERR empty command"), by change (13 : UInt8) ∉ _; decide,
          by decide +kernel⟩
      · exact ⟨.error (ascii "ERR unknown command"), by change (13 : UInt8) ∉ _; decide,
          by decide +kernel⟩

end SerialServer

-----------------------------------------------------------------------------------------
-- What is seen of the server
-----------------------------------------------------------------------------------------

/-- A request, by the number of its connection and its number there. -/
abbrev RequestId := ℕ × ℕ

def Request.requestId (request : Request) : RequestId := (request.origin, request.seqId)

def Task.requestId (task : Task) : RequestId := (task.origin, task.sequenceId)

def TaskResult.requestId (result : TaskResult) : RequestId := (result.origin, result.sequenceId)

abbrev RequestEvent := Linearization.Event RequestId Bytes Bytes

abbrev ServedRequest := Linearization.Operation RequestId Bytes Bytes

/-- The line that a turn of the read loop has issued. -/
def Action.issued (next : Server) : Action → List RequestEvent
  | .readLine =>
      next.position.hand.toList.map fun request => .called request.requestId request.line
  | _ => []

theorem Action.issued_of_none {next : Server} (empty : next.position.hand = none)
    (action : Action)
    : action.issued next = [] := by
  cases action with
  | readLine => rw [issued, empty, Option.toList_none, List.map_nil]
  | accept | recv | process | write | hangup | drain | deliver | unpause | pop | execute | post
  | sweep => rfl

namespace Server

/-- What is seen of a turn. A request is called when its line is issued, which is after it was sent,
and it has returned when its result is posted, which is before its response is sent.
-/
def seen (server : Server) (action : Action) : List RequestEvent :=
  match server.step action with
  | none => []
  | some next =>
      action.issued next
      ++ (next.pool.posted.drop server.pool.posted.length).map fun result =>
          .returned result.requestId result.response

def history (steps : List (Server × Action)) : List RequestEvent :=
  steps.flatMap fun entry => entry.1.seen entry.2

/-- The server as it would be with its store and its clock alone. -/
def serial (server : Server) : SerialServer := { server.store with clock := server.clock }

theorem history_append (front back : List (Server × Action))
    : history (front ++ back) = history front ++ history back :=
  List.flatMap_append

theorem history_singleton (server : Server) (action : Action)
    : history [(server, action)] = server.seen action :=
  List.flatMap_singleton ..

variable {server next : Server} {action : Action}

theorem seen_of_step (taken : server.step action = some next) {results : List TaskResult}
    (posted : next.pool.posted = server.pool.posted ++ results)
    : server.seen action
      = action.issued next
        ++ results.map fun result => .returned result.requestId result.response := by
  simp only [seen, taken, posted, List.drop_left]

/-- A turn that posts nothing and reads no line is not seen. -/
theorem seen_eq_nil (taken : server.step action = some next)
    (posted : next.pool.posted = server.pool.posted) (silent : action.issued next = [])
    : server.seen action = [] := by
  rw [seen_of_step taken (posted.trans (List.append_nil _).symm), silent]
  rfl

end Server

/-- The requests that are still to be executed or refused. -/
def Work.waitingIds (work : Work) : List RequestId :=
  work.unexecuted.map Task.requestId ++ work.hand.toList.map Request.requestId

-----------------------------------------------------------------------------------------
-- The order in which requests are served
-----------------------------------------------------------------------------------------

namespace Server

/-- The requests seen so far are served in an order that a server without threads could have taken,
which has the store of this one now. Those that are under way have been called and wait for
their turn, or have their answer from it.
-/
structure Serialized (opening : SerialServer) (past : List RequestEvent)
    (order : List ServedRequest) (server : Server)
    : Prop where
  linearizes
    : Linearization.Linearizes SerialServer.specification opening order server.serial past
  hand : ∀ request ∈ server.work.hand, .called request.requestId request.line ∈ past
  tasks
    : ∀ task ∈ server.work.unexecuted,
        ∃ line, .called task.requestId line ∈ past ∧ commandOf line = some task.command
  unserved : ∀ id ∈ server.work.waitingIds, id ∉ order.map Linearization.Operation.id
  nodup : server.work.waitingIds.Nodup
  replied
    : ∀ busy ∈ server.busy, ∀ response ∈ busy.response,
        ∃ line, ⟨busy.task.requestId, line, response⟩ ∈ order
  accepted : ∀ id line, .called id line ∈ past → id.1 < server.accepted
  issued
    : ∀ client connection,
        server.connections.lookup client = some connection
        → ∀ number line,
            .called (connection.id, number) line ∈ past
            → connection.issued[number]? = some line
  numbered
    : ∀ client connection,
        server.connections.lookup client = some connection
        → connection.nextSeqIssue = connection.issued.length

namespace Serialized

variable {opening : SerialServer} {past : List RequestEvent} {order : List ServedRequest}
  {server next : Server} {action : Action}

theorem start (server : Server) (idle : server.position = .idle) (free : server.busy = [])
    (empty : server.pool.queue = []) (closed : server.connections = ∅)
    : Serialized server.serial [] [] server where
  linearizes := .nil
  hand := by simp [work, idle, Position.hand]
  tasks := by simp [work, Work.unexecuted, free, empty]
  unserved := by simp
  nodup := by simp [Work.waitingIds, work, Work.unexecuted, free, empty, idle, Position.hand]
  replied := by simp [free]
  accepted := by simp
  issued := by simp
  numbered := by simp [closed]

/-- Every request that waits has been called. -/
theorem called_of_waits (serialized : Serialized opening past order server) {id : RequestId}
    (waits : id ∈ server.work.waitingIds)
    : ∃ line, .called id line ∈ past := by
  rcases List.mem_append.mp waits with queued | held
  · obtain ⟨task, member, rfl⟩ := List.mem_map.mp queued
    obtain ⟨line, called, -⟩ := serialized.tasks task member
    exact ⟨line, called⟩
  · obtain ⟨request, member, rfl⟩ := List.mem_map.mp held
    exact ⟨request.line, serialized.hand request (Option.mem_toList.mp member)⟩

/-- A step after which the same requests wait, and no connection has issued a line. -/
theorem turn (serialized : Serialized opening past order server) {later : List RequestEvent}
    {order' : List ServedRequest} (mono : server.accepted ≤ next.accepted)
    (lines : server.KeepsLines next)
    (calls : ∀ id line, .called id line ∈ later ↔ .called id line ∈ past)
    (linearizes
      : Linearization.Linearizes SerialServer.specification opening order' next.serial later)
    (hand : ∀ request ∈ next.work.hand, request ∈ server.work.hand)
    (tasks
      : ∀ task ∈ next.work.unexecuted,
          task ∈ server.work.unexecuted
          ∨ ∃ request ∈ server.work.hand,
              task.requestId = request.requestId ∧ commandOf request.line = some task.command)
    (unserved : ∀ id ∈ next.work.waitingIds, id ∉ order'.map Linearization.Operation.id)
    (nodup : next.work.waitingIds.Nodup)
    (replied
      : ∀ busy ∈ next.busy, ∀ response ∈ busy.response,
          ∃ line, ⟨busy.task.requestId, line, response⟩ ∈ order')
    : Serialized opening later order' next where
  linearizes := linearizes
  hand request member := (calls _ _).mpr (serialized.hand request (hand request member))
  tasks task member := by
    rcases tasks task member with before | ⟨request, held, same, made⟩
    · obtain ⟨line, called, made⟩ := serialized.tasks task before
      exact ⟨line, (calls _ _).mpr called, made⟩
    · exact ⟨request.line, (calls _ _).mpr (same ▸ serialized.hand request held), made⟩
  unserved := unserved
  nodup := nodup
  replied := replied
  accepted id line called := (serialized.accepted id line ((calls _ _).mp called)).trans_le mono
  issued client connection found number line called := by
    obtain ⟨earlier, known, id, same, -⟩ := lines client connection found
    rw [same]
    exact serialized.issued client earlier known number line (id ▸ (calls _ _).mp called)
  numbered client connection found := by
    obtain ⟨earlier, known, -, same, count⟩ := lines client connection found
    rw [same, count]
    exact serialized.numbered client earlier known

/-- A step that changes nothing under way. -/
theorem stay (serialized : Serialized opening past order server)
    (mono : server.accepted ≤ next.accepted) (lines : server.KeepsLines next)
    (work : next.work = server.work) (store : next.store = server.store)
    : Serialized opening past order next := by
  have clock : next.clock = server.clock := congrArg Work.clock work
  have serial : next.serial = server.serial := by rw [Server.serial, Server.serial, store, clock]
  refine serialized.turn mono lines (fun _ _ => Iff.rfl) (serial ▸ serialized.linearizes) ?_ ?_
    ?_ ?_ ?_
  · rw [work]
    exact fun request held => held
  · rw [work]
    exact fun task member => .inl member
  · rw [work]
    exact serialized.unserved
  · rw [work]
    exact serialized.nodup
  · rw [show next.busy = server.busy from congrArg Work.busy work]
    exact serialized.replied

/-- A new connection has issued nothing, and nothing was called by its number. -/
theorem accept (serialized : Serialized opening past order server) (client : Socket) (ip : Bytes)
    : Serialized opening past order
        { server.putConnection client { clientIp := ip, id := server.accepted } with
          totalConnections := server.totalConnections + 1
          accepted := server.accepted + 1 } :=
  { serialized with
    accepted := fun id line called => Nat.lt_succ_of_lt (serialized.accepted id line called)
    issued := by
      intro other connection found number line called
      rcases lookup_insert_cases found with ⟨rfl, rfl⟩ | ⟨-, known⟩
      · exact absurd (serialized.accepted _ line called) (lt_irrefl _)
      · exact serialized.issued other connection known number line called
    numbered := by
      intro other connection found
      rcases lookup_insert_cases found with ⟨rfl, rfl⟩ | ⟨-, known⟩
      · rfl
      · exact serialized.numbered other connection known }

/-- A line is issued: its request has a new number, and waits with the others. -/
theorem issue (serialized : Serialized opening past order server)
    (tagged : server.traffic.Tagged) {client : Socket} {connection : Connection}
    (reads : server.position = .reading client)
    (found : server.connections.lookup client = some connection) (line rest : Bytes)
    : Serialized opening
        (past ++ [.called (connection.id, connection.nextSeqIssue) line]) order
        { server.putConnection client
            { connection with
              toConnectionState := connection.toConnectionState.issue rest
              issued := connection.issued ++ [line] } with
          position :=
            .processing
              {
                client := client,
                line := line,
                seqId := connection.nextSeqIssue,
                clientIp := connection.clientIp,
                origin := connection.id
              } } := by
  have idle : server.work.hand = none := congrArg Position.hand reads
  have new : ∀ other, .called (connection.id, connection.nextSeqIssue) other ∉ past := by
    intro other called
    have within := serialized.issued client connection found _ other called
    rw [serialized.numbered client connection found] at within
    exact absurd (List.getElem?_eq_some_iff.mp within).1 (lt_irrefl _)
  have others : (connection.id, connection.nextSeqIssue) ∉ server.work.waitingIds := by
    intro waits
    obtain ⟨other, called⟩ := serialized.called_of_waits waits
    exact new other called
  have waiting : server.work.waitingIds = server.work.unexecuted.map Task.requestId := by
    simp [Work.waitingIds, idle]
  rw [waiting] at others
  constructor
  case linearizes => exact serialized.linearizes.call new line
  case hand =>
    intro request held
    obtain rfl := Option.some.inj held
    exact List.mem_append_right _ List.mem_cons_self
  case tasks =>
    intro task member
    obtain ⟨asked, called, made⟩ := serialized.tasks task member
    exact ⟨asked, List.mem_append_left _ called, made⟩
  case unserved =>
    intro id waits served
    rcases List.mem_append.mp waits with before | last
    · exact serialized.unserved id (waiting ▸ before) served
    · obtain rfl := List.mem_singleton.mp last
      obtain ⟨operation, among, same⟩ := List.mem_map.mp served
      have called := serialized.linearizes.called operation among
      rw [same] at called
      exact new operation.call called
  case nodup =>
    refine List.nodup_append.mpr ⟨waiting ▸ serialized.nodup, List.nodup_singleton _, ?_⟩
    rintro first member second last rfl
    rw [List.mem_singleton.mp last] at member
    exact others member
  case replied => exact serialized.replied
  case accepted =>
    intro id asked called
    rcases List.mem_append.mp called with before | last
    · exact serialized.accepted id asked before
    · obtain ⟨rfl, -⟩ := Linearization.Event.called.inj (List.mem_singleton.mp last)
      exact tagged.opened found
  case issued =>
    intro other state there number asked called
    rcases lookup_insert_cases there with ⟨rfl, rfl⟩ | ⟨different, known⟩
    · rcases List.mem_append.mp called with before | last
      · have earlier := serialized.issued _ connection found number asked before
        exact (List.getElem?_append_left (List.getElem?_eq_some_iff.mp earlier).1).trans earlier
      · obtain ⟨same, rfl⟩ := Linearization.Event.called.inj (List.mem_singleton.mp last)
        obtain ⟨-, rfl⟩ := Prod.mk.inj same
        rw [serialized.numbered _ connection found]
        exact List.getElem?_concat_length
    · rcases List.mem_append.mp called with before | last
      · exact serialized.issued other state known number asked before
      · obtain ⟨same, -⟩ := Linearization.Event.called.inj (List.mem_singleton.mp last)
        exact absurd (tagged.unique known found (Prod.mk.inj same).1) different
  case numbered =>
    intro other state there
    rcases lookup_insert_cases there with ⟨rfl, rfl⟩ | ⟨-, known⟩
    · simp [ConnectionState.issue, serialized.numbered _ connection found]
    · exact serialized.numbered other state known

/-- The one that was served no longer waits, and the others still do. -/
theorem unserved_rest (serialized : Serialized opening past order server)
    {operation : ServedRequest} {rest : List RequestId}
    (split : server.work.waitingIds.Perm (operation.id :: rest))
    : (∀ id ∈ rest, id ∉ (order ++ [operation]).map Linearization.Operation.id) ∧ rest.Nodup := by
  obtain ⟨alone, nodup⟩ := List.nodup_cons.mp (split.nodup_iff.mp serialized.nodup)
  refine ⟨?_, nodup⟩
  intro id waits served
  rw [List.map_append, List.map_singleton] at served
  rcases List.mem_append.mp served with before | last
  · exact serialized.unserved id (split.mem_iff.mpr (List.mem_cons_of_mem _ waits)) before
  · exact alone (List.mem_singleton.mp last ▸ waits)

/-- A turn of the read loop issues at most one line, by cases on the turn. -/
theorem readLine (serialized : Serialized opening past order server)
    (tagged : server.traffic.Tagged) {client : Socket} {connection : Connection}
    (reads : server.position = .reading client)
    (found : server.connections.lookup client = some connection)
    (taken : server.step .readLine = some (server.readLine client connection))
    : Serialized opening (past ++ server.seen .readLine) order
        (server.readLine client connection) := by
  have read : server.position.hand = none := congrArg Position.hand reads
  have stays (rest : Bytes) (position : Position) (empty : position.hand = none)
      (paused : Finset Socket)
      : Serialized opening past order
          { server.putConnection client { connection with readBuffer := rest } with
            pausedReads := paused
            position := position } := by
    refine serialized.stay le_rfl (keepsLines_of_insert found rfl rfl rfl rfl) ?_ rfl
    simp only [Server.work, putConnection, empty, read]
  have posted : (server.readLine client connection).pool.posted = server.pool.posted := by
    unfold Server.readLine
    split <;> rfl
  rw [seen_of_step taken (posted.trans (List.append_nil _).symm), List.map_nil, List.append_nil,
    Action.issued]
  rcases turn : connection.readTurn server.queueOver90 with _ | rest | rest | ⟨line, rest⟩
  · simp only [Server.readLine, turn, Position.hand, Option.toList_none, List.map_nil,
      List.append_nil]
    refine serialized.stay le_rfl (keepsLines_of_eq rfl) ?_ rfl
    simp only [Server.work, reads, Position.hand]
  · simp only [Server.readLine, turn, putConnection, read, Option.toList_none, List.map_nil,
      List.append_nil]
    exact stays rest server.position read server.pausedReads
  · simp only [Server.readLine, turn, Position.hand, Option.toList_none, List.map_nil,
      List.append_nil]
    exact stays rest .idle rfl (insert client server.pausedReads)
  · simp only [Server.readLine, turn, Position.hand, Option.toList_some, List.map_singleton]
    exact serialized.issue tagged reads found line rest

/-- The pipeline refuses the line in hand, which serves its request, or it puts the command into
the queue.
-/
theorem process (serialized : Serialized opening past order server) (room : server.HasRoom)
    {request : Request} (processes : server.position = .processing request)
    (taken : server.step .process = some (server.process request))
    : ∃ order',
        Serialized opening (past ++ server.seen .process) order' (server.process request) := by
  have held : server.work.hand = some request := congrArg Position.hand processes
  have called := serialized.hand request held
  have waiting
      : server.work.waitingIds
        = server.work.unexecuted.map Task.requestId ++ [request.requestId] := by
    simp [Work.waitingIds, held]
  have silent : Action.issued (server.process request) .process = [] := rfl
  cases made : commandOf request.line with
  | none =>
      let operation : ServedRequest :=
        ⟨request.requestId, request.line, refusalOf request.line⟩
      have unserved := serialized.unserved request.requestId (by simp [waiting])
      have served := serialized.linearizes.serve operation called unserved (.refused made)
      have split
          : server.work.waitingIds.Perm
              (operation.id :: server.work.unexecuted.map Task.requestId) := by
        rw [waiting]
        exact List.perm_append_singleton _ _
      obtain ⟨others, nodup⟩ := serialized.unserved_rest split
      have posted
          : (server.process request).pool.posted
            = server.pool.posted
              ++ [⟨request.client, request.seqId, refusalOf request.line, request.origin⟩] := by
        simp [Server.process, Pipeline.process_of_refused made, Request.reject, WorkerPool.push]
      have work
          : (server.process request).work
            = { server.work with
                hand := none
                posted :=
                  server.work.posted
                    ++ [⟨request.client, request.seqId, refusalOf request.line,
                      request.origin⟩] } := by
        simp only [Server.work, Server.process, Pipeline.process_of_refused made, Request.reject,
          WorkerPool.push, Position.hand]
      have waits
          : (server.process request).work.waitingIds
            = server.work.unexecuted.map Task.requestId := by
        rw [work]
        exact List.append_nil _
      rw [seen_of_step taken posted, silent, List.nil_append, List.map_singleton]
      refine ⟨order ++ [operation], serialized.turn le_rfl (keepsLines_of_eq rfl) ?_ ?_ ?_ ?_ ?_ ?_
        ?_⟩
      · simp
      · exact served.returns (List.mem_append_right _ List.mem_cons_self)
      · simp [work]
      · exact fun task member => .inl (by rwa [work] at member)
      · rw [waits]
        exact others
      · rw [waits]
        exact nodup
      · intro busy member response done
        obtain ⟨line, among⟩ := serialized.replied busy member response done
        exact ⟨line, List.mem_append_left _ among⟩
  | some command =>
      have queued := room.process processes made
      have work
          : (server.process request).work
            = { server.work with
                hand := none
                queue := server.work.queue ++ [request.task command] } := by
        simp only [Server.work, Server.process, queued, Position.hand]
      have same : (server.process request).work.waitingIds = server.work.waitingIds := by
        rw [waiting, work, Work.waitingIds]
        simp [Work.unexecuted, Task.requestId, Request.task, Request.requestId]
      have posted : (server.process request).pool.posted = server.pool.posted := by
        simp [Server.process, queued]
      rw [seen_eq_nil taken posted silent, List.append_nil]
      refine ⟨order, serialized.turn le_rfl (keepsLines_of_eq rfl) (fun _ _ => Iff.rfl)
        serialized.linearizes ?_ ?_ ?_ ?_ serialized.replied⟩
      · simp [work]
      · intro task member
        rw [work, Work.unexecuted, ← List.append_assoc] at member
        rcases List.mem_append.mp member with before | last
        · exact .inl before
        · obtain rfl := List.mem_singleton.mp last
          exact .inr ⟨request, held, rfl, made⟩
      · rw [same]
        exact serialized.unserved
      · rw [same]
        exact serialized.nodup

/-- A worker takes a task; the requests wait as before. -/
theorem pop (serialized : Serialized opening past order server) {task : Task} {rest : List Task}
    (first : server.pool.queue = task :: rest) (worker : ℕ)
    : Serialized opening past order (server.pop worker task rest) := by
  have same : (server.pop worker task rest).work.unexecuted = server.work.unexecuted := by
    simp [Work.unexecuted, Server.work, Server.pop, first]
  have waiting : (server.pop worker task rest).work.waitingIds = server.work.waitingIds :=
    congrArg (· ++ server.work.hand.toList.map Request.requestId)
      (congrArg (List.map Task.requestId) same)
  refine serialized.turn le_rfl (keepsLines_of_eq rfl) (fun _ _ => Iff.rfl)
    serialized.linearizes (fun _ held => held) ?_ ?_ ?_ ?_
  · exact fun task member => .inl (same ▸ member)
  · rw [waiting]
    exact serialized.unserved
  · rw [waiting]
    exact serialized.nodup
  · intro busy member response done
    rcases List.mem_append.mp member with before | last
    · exact serialized.replied busy before response done
    · obtain rfl := List.mem_singleton.mp last
      cases done

/-- A worker executes a command, which serves the request of its task. -/
theorem execute (serialized : Serialized opening past order server) {front back : List BusyWorker}
    {busy : BusyWorker} (holds : server.busy = front ++ busy :: back)
    (waits : busy.response = none) {now : Int} (advances : server.clock ≤ now)
    (refusals : Refusals)
    : ∃ order',
        Serialized opening past order' (server.execute front busy back now refusals) := by
  let done := busy.task.command.execute refusals now server.store.router server.store.aof
  have among : busy.task ∈ server.work.unexecuted := by
    simp [Work.unexecuted, Server.work, holds, waits]
  obtain ⟨line, called, made⟩ := serialized.tasks busy.task among
  let operation : ServedRequest := ⟨busy.task.requestId, line, done.reply⟩
  have answered
      : SerialServer.Answers server.serial line done.reply
          (server.execute front busy back now refusals).serial :=
    .executed made advances refusals
  have unserved := serialized.unserved busy.task.requestId
    (List.mem_append_left _ (List.mem_map_of_mem among))
  have served := serialized.linearizes.serve operation called unserved answered
  have split
      : server.work.unexecuted.Perm
          (busy.task :: (server.execute front busy back now refusals).work.unexecuted) :=
    Work.unexecuted_executed holds waits rfl done.router now
  have waiting
      : server.work.waitingIds.Perm
          (operation.id :: (server.execute front busy back now refusals).work.waitingIds) :=
    (split.map Task.requestId).append_right _
  obtain ⟨others, nodup⟩ := serialized.unserved_rest waiting
  refine ⟨order ++ [operation], serialized.turn le_rfl (keepsLines_of_eq rfl)
    (fun _ _ => Iff.rfl) served (fun _ held => held) ?_ others nodup ?_⟩
  · exact fun task member => .inl (split.mem_iff.mpr (List.mem_cons_of_mem _ member))
  · intro other member response there
    rcases List.mem_append.mp member with before | behind
    · obtain ⟨asked, known⟩ := serialized.replied other (by simp [holds, before]) response there
      exact ⟨asked, List.mem_append_left _ known⟩
    · rcases List.mem_cons.mp behind with rfl | behind
      · obtain rfl := Option.some.inj there
        exact ⟨line, List.mem_append_right _ List.mem_cons_self⟩
      · obtain ⟨asked, known⟩ := serialized.replied other (by simp [holds, behind]) response there
        exact ⟨asked, List.mem_append_left _ known⟩

/-- A worker posts its result, with which its request returns. -/
theorem post (serialized : Serialized opening past order server) {front back : List BusyWorker}
    {busy : BusyWorker} (holds : server.busy = front ++ busy :: back) {response : Bytes}
    (done : busy.response = some response)
    : Serialized opening (past ++ [.returned busy.task.requestId response]) order
        (server.post front busy back response) := by
  have same : (server.post front busy back response).work.unexecuted = server.work.unexecuted := by
    simp [Work.unexecuted, Server.work, Server.post, WorkerPool.push, holds, done]
  have waiting
      : (server.post front busy back response).work.waitingIds = server.work.waitingIds :=
    congrArg (· ++ server.work.hand.toList.map Request.requestId)
      (congrArg (List.map Task.requestId) same)
  obtain ⟨line, among⟩ := serialized.replied busy (by simp [holds]) response done
  refine serialized.turn le_rfl (keepsLines_of_eq rfl) ?_ (serialized.linearizes.returns among)
    (fun _ held => held) ?_ ?_ ?_ ?_
  · simp
  · exact fun task member => .inl (same ▸ member)
  · rw [waiting]
    exact serialized.unserved
  · rw [waiting]
    exact serialized.nodup
  · intro other member
    apply serialized.replied other
    rw [holds]
    rcases List.mem_append.mp member with before | behind
    · exact List.mem_append_left _ before
    · exact List.mem_append_right _ (List.mem_cons_of_mem _ behind)

/-- The sweeper takes its turn between two requests. -/
theorem sweep (serialized : Serialized opening past order server) {now : Int}
    (advances : server.clock ≤ now) (key : Bytes)
    : Serialized opening past order (server.sweep now key) :=
  serialized.turn le_rfl (keepsLines_of_eq rfl) (fun _ _ => Iff.rfl)
    (serialized.linearizes.move (.sweep advances key)) (fun _ held => held)
    (fun _ member => .inl member) serialized.unserved serialized.nodup serialized.replied

/-- Every step keeps what was served in order, by cases on what it does. -/
theorem step (serialized : Serialized opening past order server)
    (tagged : server.traffic.Tagged) (room : server.HasRoom)
    (taken : server.step action = some next)
    : ∃ order', Serialized opening (past ++ server.seen action) order' next := by
  have takes := takes_of_step taken
  have mono := accepted_mono takes
  cases takes with
  | accepted idle =>
      rw [seen_eq_nil taken rfl rfl, List.append_nil]
      exact ⟨order, serialized.accept _ _⟩
  | received idle found =>
      rw [seen_eq_nil taken rfl rfl, List.append_nil]
      refine ⟨order, serialized.stay mono (keepsLines_of_insert found rfl rfl rfl rfl) ?_ rfl⟩
      simp only [Server.work, beginRead, putConnection, idle, Position.hand]
  | disconnected client idle =>
      rw [seen_eq_nil taken rfl (Action.issued_of_none (congrArg Position.hand idle) _),
        List.append_nil]
      refine ⟨order, serialized.stay mono ?_ rfl rfl⟩
      intro other connection there
      exact ⟨connection, lookup_of_lookup_erase there, rfl, rfl, rfl⟩
  | readLine reads found => exact ⟨order, serialized.readLine tagged reads found taken⟩
  | process processes => exact serialized.process room processes taken
  | written count found =>
      rw [seen_eq_nil taken rfl rfl, List.append_nil]
      refine ⟨order, serialized.stay mono (keepsLines_of_insert found rfl rfl rfl ?_) rfl rfl⟩
      exact (ConnectionState.input_written count _).1
  | drain idle =>
      rw [seen_eq_nil taken rfl rfl, List.append_nil]
      refine ⟨order, serialized.stay mono (keepsLines_of_eq rfl) ?_ rfl⟩
      simp only [Server.work, beginDrain, idle, Position.hand]
  | drained drains =>
      rw [seen_eq_nil taken rfl rfl, List.append_nil]
      refine ⟨order, serialized.stay mono (keepsLines_of_eq rfl) ?_ rfl⟩
      simp only [Server.work, drains, Position.hand]
  | @deliver result rest drains =>
      have posted : (server.deliver result rest).pool.posted = server.pool.posted := by
        unfold Server.deliver
        split <;> rfl
      rw [seen_eq_nil taken posted rfl, List.append_nil]
      refine ⟨order, ?_⟩
      unfold Server.deliver at mono ⊢
      split at mono
      · refine serialized.stay mono (keepsLines_of_eq rfl) ?_ rfl
        simp only [Server.work, drains, Position.hand]
      · rename_i connection found
        refine serialized.stay mono (keepsLines_of_insert found rfl rfl rfl ?_) ?_ rfl
        · exact (ConnectionState.input_place result _).1
        · simp only [Server.work, putConnection, drains, Position.hand]
  | pop first =>
      rw [seen_eq_nil taken rfl rfl, List.append_nil]
      exact ⟨order, serialized.pop first _⟩
  | @execute worker now refusals front busy back holds waits advances =>
      rw [seen_eq_nil taken rfl rfl, List.append_nil]
      exact serialized.execute holds waits advances refusals
  | @post worker front busy back response holds done =>
      have posted
          : (server.post front busy back response).pool.posted
            = server.pool.posted ++ [busy.task.result response] := rfl
      rw [seen_of_step taken posted]
      exact ⟨order, serialized.post holds done⟩
  | sweep advances =>
      rw [seen_eq_nil taken rfl rfl, List.append_nil]
      exact ⟨order, serialized.sweep advances _⟩
  | rejected | unpause =>
      rw [seen_eq_nil taken rfl rfl, List.append_nil]
      exact ⟨order, serialized.stay mono (keepsLines_of_eq rfl) rfl rfl⟩

end Serialized

-----------------------------------------------------------------------------------------
-- Whole runs
-----------------------------------------------------------------------------------------

section Runs

variable {threadCount capacity : ℕ} {store : LoggedStore} {clock : Int}
  {steps : List (Server × Action)} {server next : Server} {action : Action}

/-- The requests of every run are served in some order, by induction on the run. -/
theorem serialized_of_run (positive : 0 < capacity)
    (run : TransitionSystem.Run step (startWith threadCount capacity store clock) steps server)
    : (server.traffic.Tagged ∧ server.HasRoom)
      ∧ ∃ order,
          Serialized { store with clock := clock } (history steps) order server := by
  induction run with
  | nil =>
      have room : (startWith threadCount capacity store clock).HasRoom :=
        ⟨rfl, positive, by simp [startWith, start, Position.hand]⟩
      refine ⟨⟨tagged_start threadCount store clock, room⟩, [], ?_⟩
      exact .start (startWith threadCount capacity store clock) rfl rfl rfl rfl
  | snoc _ taken ih =>
      obtain ⟨⟨tagged, room⟩, order, serialized⟩ := ih
      have takes := takes_of_step taken
      refine ⟨⟨tagged.moves (moves_of_takes takes), room.step takes⟩, ?_⟩
      rw [history_append, history_singleton]
      exact serialized.step tagged room taken

end Runs

end Server

end InMemoryDB
