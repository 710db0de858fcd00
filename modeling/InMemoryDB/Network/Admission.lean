import InMemoryDB.Core.Replies
import InMemoryDB.Network.Changes

/-! The reader stops before the task queue is full, so that there is room for every command it
lets through, and no client reads that the server is busy.
-/

namespace InMemoryDB

-----------------------------------------------------------------------------------------
-- Replies other than the one of a full queue
-----------------------------------------------------------------------------------------

def serverBusyError : Resp.Reply := .error (ascii "ERR server busy")

theorem serverBusyReply_eq : serverBusyReply = Resp.encode serverBusyError := by decide +kernel

theorem plain_serverBusyError : serverBusyError.Plain := by
  change (13 : UInt8) ∉ _
  decide +kernel

/-- The text of a reply that can be read back and is not that of a full queue. -/
def NotBusy (response : Bytes) : Prop :=
  ∃ reply : Resp.Reply,
    reply.Plain ∧ reply ≠ serverBusyError ∧ response = Resp.encode reply

theorem NotBusy.ne {response : Bytes} (notBusy : NotBusy response)
    : response ≠ serverBusyReply := by
  obtain ⟨reply, plain, other, rfl⟩ := notBusy
  rw [serverBusyReply_eq]
  exact fun same => other (Resp.encode_inj plain plain_serverBusyError same)

/-- No command says that the queue is full. -/
theorem ICommand.notBusy_execute (command : ICommand) (refusals : Refusals) (now : Int)
    (router : ShardRouter) (aof : AofLogger)
    : NotBusy (command.execute refusals now router aof).reply := by
  rcases command.reply_execute refusals now router aof with said | ⟨-, -, said⟩
  · refine ⟨_, command.plain_meant _ _, ?_, said⟩
    rcases command.meant_cases now (command.entryIn router) with same | same | same | other
    · simp [same, serverBusyError]
    · simp [same, serverBusyError]
    · rw [same]
      decide +kernel
    · exact (other _).2
  · exact ⟨_, plain_oomError, by decide +kernel, said⟩

/-- Nor does the answer to a line that makes no command. -/
theorem notBusy_refusalOf (line : Bytes) : NotBusy (refusalOf line) := by
  unfold refusalOf
  split
  · refine ⟨.error (ascii "ERR empty command"), ?_, by decide +kernel, by decide +kernel⟩
    change (13 : UInt8) ∉ _
    decide +kernel
  · refine ⟨.error (ascii "ERR unknown command"), ?_, by decide +kernel, by decide +kernel⟩
    change (13 : UInt8) ∉ _
    decide +kernel

/-- A stream of such texts is read as replies that are none of them. -/
theorem decode_of_notBusy {responses : List Bytes}
    (each : ∀ response ∈ responses, NotBusy response)
    : ∃ replies, Resp.decode responses.flatten = some replies ∧ serverBusyError ∉ replies := by
  have read
      : ∃ replies : List Resp.Reply,
          (∀ reply ∈ replies, reply.Plain ∧ reply ≠ serverBusyError)
          ∧ responses.flatten = replies.flatMap Resp.encode := by
    induction responses with
    | nil => exact ⟨[], by simp, rfl⟩
    | cons response rest ih =>
        obtain ⟨here, others⟩ := List.forall_mem_cons.mp each
        obtain ⟨reply, plain, other, rfl⟩ := here
        obtain ⟨replies, known, same⟩ := ih others
        refine ⟨reply :: replies, List.forall_mem_cons.mpr ⟨⟨plain, other⟩, known⟩, ?_⟩
        rw [List.flatten_cons, same, List.flatMap_cons]
  obtain ⟨replies, known, same⟩ := read
  refine ⟨replies, ?_, fun busy => (known _ busy).2 rfl⟩
  rw [same]
  exact Resp.decode_flatMap fun reply member => (known reply member).1

-----------------------------------------------------------------------------------------
-- What a connection writes is made of the results it gets
-----------------------------------------------------------------------------------------

namespace ConnectionState

/-- The output of a connection consists of allowed responses, and only such wait to be moved
there.
-/
structure MadeOf (allowed : Bytes → Prop) (sent : Bytes) (state : ConnectionState) : Prop where
  output
    : ∃ responses : List Bytes,
        sent ++ state.writeBuffer = responses.flatten
        ∧ ∀ response ∈ responses, allowed response
  held : ∀ {number response}, state.outOfOrderBuf.lookup number = some response → allowed response

namespace MadeOf

variable {allowed : Bytes → Prop} {sent : Bytes} {state : ConnectionState}

/-- By induction on the fuel. -/
theorem flush (made : state.MadeOf allowed sent) (fuel : ℕ)
    : (state.flush fuel).MadeOf allowed sent := by
  induction fuel generalizing state with
  | zero => exact made
  | succ fuel ih =>
      unfold ConnectionState.flush
      split
      · exact made
      · rename_i response found
        obtain ⟨responses, same, each⟩ := made.output
        refine ih ⟨⟨responses ++ [response], ?_, ?_⟩, ?_⟩
        · rw [List.flatten_append, ← same]
          simp
        · exact List.forall_mem_append.mpr ⟨each, by simpa using made.held found⟩
        · intro number other there
          by_cases due : number = state.nextSeqExpected
          · subst number
            simp at there
          · exact made.held ((Finmap.lookup_erase_ne due).symm.trans there)

theorem place (made : state.MadeOf allowed sent) {result : TaskResult}
    (permitted : allowed result.response)
    : (state.place result).MadeOf allowed sent := by
  apply flush
  refine ⟨made.output, ?_⟩
  intro number response there
  by_cases same : number = result.sequenceId
  · subst number
    exact Option.some.inj ((Finmap.lookup_insert _).symm.trans there) ▸ permitted
  · exact made.held ((Finmap.lookup_insert_of_ne _ same).symm.trans there)

theorem written (made : state.MadeOf allowed sent) (count : ℕ)
    : (state.written count).MadeOf allowed (sent ++ state.writeBuffer.take count) := by
  unfold ConnectionState.written
  split
  · rename_i empty
    refine ⟨?_, made.held⟩
    simpa [empty] using made.output
  · refine ⟨?_, made.held⟩
    rw [List.append_assoc, List.take_append_drop]
    exact made.output

end MadeOf

end ConnectionState

/-- What the reactor does to a connection keeps that. -/
theorem Connection.kept_madeOf (allowed : Bytes → Prop)
    : Kept (fun result => allowed result.response)
        fun connection => connection.toConnectionState.MadeOf allowed connection.sent where
  opened ip id := ⟨⟨[], rfl, by simp⟩, by simp⟩
  received chunk made := ⟨made.output, made.held⟩
  consumed rest made := ⟨made.output, made.held⟩
  issued line rest room made := ⟨made.output, made.held⟩
  written count made := made.written count
  placed result permitted made := made.place permitted

/-- Only results that were posted are on their way, by cases on the move. -/
theorem Traffic.posted_of_undelivered {traffic next : Traffic} {opened : Option Socket}
    (moved : traffic.Moves opened next)
    (among : ∀ result ∈ traffic.undelivered, result ∈ traffic.posted)
    : ∀ result ∈ next.undelivered, result ∈ next.posted := by
  cases moved with
  | post result waits own filled =>
      refine List.forall_mem_append.mpr ⟨?_, by simp⟩
      exact fun other member => List.mem_append_left _ (among other member)
  | place first found =>
      exact fun result member => among result (first ▸ List.mem_cons_of_mem _ member)
  | drop first closed =>
      exact fun result member => among result (first ▸ List.mem_cons_of_mem _ member)
  | stay | accept | close | read | issue | write => exact among

-----------------------------------------------------------------------------------------
-- Runs of the server
-----------------------------------------------------------------------------------------

namespace Server

variable {server next : Server} {action : Action}

/-- The pool runs, and whenever the reactor is about to call the pipeline the queue has room. -/
structure Roomy (server : Server) : Prop where
  running : server.pool.running = true
  capacity : 1 ≤ server.pool.maxQueueSize
  queued : server.pool.queue.length ≤ server.pool.maxQueueSize
  admitted
    : ∀ {request},
        server.position = .processing request
        → server.pool.queue.length < server.pool.maxQueueSize

namespace Roomy

/-- Nine tenths of any capacity leave a place. -/
theorem of_calm (roomy : server.Roomy) (calm : server.queueOver90 = false)
    : server.pool.queue.length < server.pool.maxQueueSize := by
  have capacity := roomy.capacity
  simp only [queueOver90, decide_eq_false_iff_not] at calm
  omega

/-- A turn of the read loop only issues a line if there is room, by cases on the turn. -/
theorem readLine (roomy : server.Roomy) (client : Socket) (connection : Connection)
    (reads : server.position = .reading client)
    : (server.readLine client connection).Roomy := by
  rcases connection.readTurn_cases server.queueOver90 with
    ⟨-, turn⟩
    | ⟨line, rest, -, -, -, ⟨-, turn⟩ | ⟨-, -, turn⟩ | ⟨-, calm, turn⟩⟩
  · rw [Server.readLine, turn]
    exact ⟨roomy.running, roomy.capacity, roomy.queued, fun processes => by cases processes⟩
  · rw [Server.readLine, turn]
    refine ⟨roomy.running, roomy.capacity, roomy.queued, ?_⟩
    exact fun processes => absurd (reads.symm.trans processes) (by simp)
  · rw [Server.readLine, turn]
    exact ⟨roomy.running, roomy.capacity, roomy.queued, fun processes => by cases processes⟩
  · rw [Server.readLine, turn]
    have room := roomy.of_calm (by simpa using fun crowded => calm (.inr crowded))
    exact ⟨roomy.running, roomy.capacity, roomy.queued, fun _ => room⟩

/-- With room in the queue, the pipeline answers a line that makes no command and queues every
other.
-/
theorem process_cases (roomy : server.Roomy) {request : Request}
    (processes : server.position = .processing request)
    : Pipeline.process request server.pool
        = request.reject (refusalOf request.line) server.pool
      ∨ ∃ command,
          Pipeline.process request server.pool
          = { server.pool with queue := server.pool.queue ++ [request.task command] } := by
  cases parsed : CommandFactory.parse (tokenize request.line) with
  | none => exact .inl (Pipeline.process_of_refused parsed server.pool)
  | some command =>
      have free : ¬ (!server.pool.running
          || server.pool.queue.length ≥ server.pool.maxQueueSize) = true := by
        simpa [roomy.running] using roomy.admitted processes
      exact .inr ⟨command, (Pipeline.processWith_of_parsed rfl parsed _).trans (if_neg free)⟩

theorem process (roomy : server.Roomy) {request : Request}
    (processes : server.position = .processing request)
    : (server.process request).Roomy := by
  have room := roomy.admitted processes
  unfold Server.process
  rcases roomy.process_cases processes with refused | ⟨command, queued⟩
  · rw [refused]
    exact ⟨roomy.running, roomy.capacity, roomy.queued, nofun⟩
  · rw [queued]
    refine ⟨roomy.running, roomy.capacity, ?_, nofun⟩
    simpa using room

/-- Every turn keeps the room, by cases on what it does; the workers only make more of it. -/
theorem step (roomy : server.Roomy) (taken : server.step action = some next) : next.Roomy := by
  cases takes_of_step taken with
  | @readLine client connection reads found => exact roomy.readLine client connection reads
  | process processes => exact roomy.process processes
  | @pop worker task rest first =>
      have fewer : rest.length < server.pool.queue.length := by simp [first]
      refine ⟨roomy.running, roomy.capacity, fewer.le.trans roomy.queued, ?_⟩
      exact fun _ => fewer.trans_le roomy.queued
  | deliver drains =>
      unfold Server.deliver
      split <;> exact ⟨roomy.running, roomy.capacity, roomy.queued, nofun⟩
  | received | drain | drained =>
      exact ⟨roomy.running, roomy.capacity, roomy.queued, nofun⟩
  | accepted | rejected | disconnected | written | unpause | execute | post | sweep =>
      exact ⟨roomy.running, roomy.capacity, roomy.queued, roomy.admitted⟩

end Roomy

/-- Nobody has said that the queue is full: no result, no worker, and nothing that a connection
has written or will write.
-/
structure Unbusied (server : Server) : Prop where
  roomy : server.Roomy
  posted : ∀ result ∈ server.pool.posted, NotBusy result.response
  among : ∀ result ∈ server.traffic.undelivered, result ∈ server.pool.posted
  executed : ∀ busy ∈ server.busy, ∀ response ∈ busy.response, NotBusy response
  connections
    : server.AllConnections fun connection =>
        connection.toConnectionState.MadeOf NotBusy connection.sent

namespace Unbusied

/-- What is posted and what the workers hold, by cases on the turn. -/
theorem results (unbusied : server.Unbusied) (taken : server.step action = some next)
    : (∀ result ∈ next.pool.posted, NotBusy result.response)
      ∧ ∀ busy ∈ next.busy, ∀ response ∈ busy.response, NotBusy response := by
  obtain ⟨roomy, posted, -, executed, -⟩ := unbusied
  cases takes_of_step taken with
  | readLine =>
      unfold Server.readLine
      split <;> exact ⟨posted, executed⟩
  | @process request processes =>
      refine ⟨?_, executed⟩
      unfold Server.process
      rcases roomy.process_cases processes with refused | ⟨command, queued⟩
      · rw [refused]
        refine List.forall_mem_append.mpr ⟨posted, ?_⟩
        exact List.forall_mem_singleton.mpr (notBusy_refusalOf request.line)
      · rw [queued]
        exact posted
  | deliver =>
      unfold Server.deliver
      split <;> exact ⟨posted, executed⟩
  | pop =>
      refine ⟨posted, List.forall_mem_append.mpr ⟨executed, ?_⟩⟩
      exact List.forall_mem_singleton.mpr nofun
  | @execute worker now refusals front busy back holds waits advances =>
      rw [holds] at executed
      obtain ⟨before, after⟩ := List.forall_mem_append.mp executed
      refine ⟨posted, List.forall_mem_append.mpr ⟨before, List.forall_mem_cons.mpr ⟨?_, ?_⟩⟩⟩
      · rintro response ⟨⟩
        exact busy.task.command.notBusy_execute refusals now _ _
      · exact (List.forall_mem_cons.mp after).2
  | @post worker front busy back response holds done =>
      rw [holds] at executed
      obtain ⟨before, after⟩ := List.forall_mem_append.mp executed
      obtain ⟨here, after⟩ := List.forall_mem_cons.mp after
      refine ⟨List.forall_mem_append.mpr ⟨posted, ?_⟩, List.forall_mem_append.mpr ⟨before, after⟩⟩
      exact List.forall_mem_singleton.mpr (here response done)
  | accepted | rejected | received | disconnected | written | drain | drained | unpause
  | sweep => exact ⟨posted, executed⟩

theorem step (unbusied : server.Unbusied) (taken : server.step action = some next)
    : next.Unbusied := by
  obtain ⟨posted, executed⟩ := unbusied.results taken
  refine ⟨unbusied.roomy.step taken, posted, ?_, executed, ?_⟩
  · exact Traffic.posted_of_undelivered (moves_of_takes (takes_of_step taken)) unbusied.among
  · refine unbusied.connections.step (Connection.kept_madeOf NotBusy) ?_ taken
    intro result drained
    exact unbusied.posted result (unbusied.among result (List.mem_append_left _ drained))

end Unbusied

/-- With a pool of any capacity, and as long as it is not shut down: whenever the reactor calls
the pipeline, the queue has room and the pool takes any task. The queue is never longer than its
capacity, no result says that it is full, and every connection's output is read as replies of
which none is that error.
-/
theorem never_busy (threadCount capacity : ℕ) (store : LoggedStore) (clock : Int)
    (room : 1 ≤ capacity) {steps : List (Server × Action)} {server : Server}
    (run : TransitionSystem.Run step (startWith threadCount capacity store clock) steps server)
    : (∀ request,
          server.position = .processing request → ∀ task, (server.pool.submit task).1 = true)
      ∧ server.pool.queue.length ≤ server.pool.maxQueueSize
      ∧ (∀ result ∈ server.pool.posted, result.response ≠ serverBusyReply)
      ∧ ∀ client connection,
          server.connections.lookup client = some connection
          → ∃ replies,
              Resp.decode (connection.sent ++ connection.writeBuffer) = some replies
              ∧ serverBusyError ∉ replies := by
  have initial : (startWith threadCount capacity store clock).Unbusied := by
    refine ⟨⟨rfl, room, Nat.zero_le _, nofun⟩, ?_, ?_, ?_, ?_⟩
    · simp [startWith]
    · simp [startWith, start, traffic, Position.drained]
    · simp [startWith, start]
    · intro client connection found
      simp [startWith, start] at found
  have unbusied : server.Unbusied :=
    run.preserves (fun unbusied taken => unbusied.step taken) initial
  refine ⟨?_, unbusied.roomy.queued, fun result member => (unbusied.posted result member).ne, ?_⟩
  · intro request processes task
    have free := unbusied.roomy.admitted processes
    simp [WorkerPool.submit, unbusied.roomy.running, not_le.mpr free]
  · intro client connection found
    obtain ⟨responses, same, each⟩ := (unbusied.connections client connection found).output
    rw [same]
    exact decode_of_notBusy each

/-- A queue with one place, and two requests of a client: the first is let through, and finds
the place free.
-/
theorem never_busy_one
    : ∃ steps server request,
        TransitionSystem.Run step (startWith 1 1 (.empty 1024 0) 0) steps server
        ∧ server.position = .processing request
        ∧ ∀ task, (server.pool.submit task).1 = true := by
  have traced
      : TransitionSystem.trace step (startWith 1 1 (.empty 1024 0) 0)
          [.accept 5 [], .recv 5 (some (ascii "PING\nPING\n")), .readLine] = some _ := rfl
  have run := TransitionSystem.run_of_trace traced
  exact ⟨_, _, _, run, rfl, (never_busy 1 1 (.empty 1024 0) 0 (by decide) run).1 _ rfl⟩

end Server

end InMemoryDB
