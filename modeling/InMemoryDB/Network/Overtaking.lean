import InMemoryDB.Network.SerialOrder

/-! How far commands may overtake each other. The queue hands them to the workers in the order in
which they were issued, so that only those that other workers hold can be late.
-/

namespace InMemoryDB

/-- The requests of a history that are commands, in the order in which they were issued. -/
def issuedCommands (past : List RequestEvent) : List RequestId :=
  past.filterMap fun event =>
    match event with
    | .called id line => if (commandOf line).isSome then some id else none
    | .returned _ _ => none

theorem exists_called_of_issued {past : List RequestEvent} {id : RequestId}
    (issued : id ∈ issuedCommands past)
    : ∃ line, .called id line ∈ past := by
  obtain ⟨event, member, same⟩ := List.mem_filterMap.mp issued
  cases event with
  | returned => cases same
  | called other line =>
      obtain ⟨-, here⟩ := Option.ite_none_right_eq_some.mp same
      obtain rfl := Option.some.inj here
      exact ⟨line, member⟩

theorem issuedCommands_append (past later : List RequestEvent)
    : issuedCommands (past ++ later) = issuedCommands past ++ issuedCommands later :=
  List.filterMap_append

/-- One command was issued before another one. -/
def IssuedBefore (past : List RequestEvent) (first second : RequestId) : Prop :=
  ∃ front back, issuedCommands past = front ++ second :: back ∧ first ∈ front

/-- The command in hand, if the line there is one. -/
def Position.command (position : Position) : List RequestId :=
  (position.hand.toList.filter fun request => (commandOf request.line).isSome).map
    Request.requestId

namespace Server

/-- Workers have taken the first commands, and the others are in the queue in their order. Every
worker holds one task at most.
-/
structure Queued (threadCount : ℕ) (started : List RequestId) (past : List RequestEvent)
    (server : Server)
    : Prop where
  threads : server.pool.threadCount = threadCount
  fifo
    : issuedCommands past
      = started ++ (server.pool.queue.map Task.requestId ++ server.position.command)
  held : ∀ busy ∈ server.busy, busy.task.requestId ∈ started
  single : (server.busy.map BusyWorker.worker).Nodup
  bounded : ∀ busy ∈ server.busy, busy.worker < threadCount

namespace Queued

variable {threadCount : ℕ} {started : List RequestId} {past : List RequestEvent}
  {server next : Server} {action : Action}

/-- Fewer than all workers hold other tasks than one of them. -/
theorem others_lt (queued : Queued threadCount started past server)
    {front back : List BusyWorker} {busy : BusyWorker}
    (holds : server.busy = front ++ busy :: back)
    : (front ++ back).length < threadCount := by
  have within : server.busy.map BusyWorker.worker ⊆ List.range threadCount := by
    intro worker member
    obtain ⟨other, among, rfl⟩ := List.mem_map.mp member
    exact List.mem_range.mpr (queued.bounded other among)
  have count := (queued.single.subperm within).length_le
  simp only [holds, List.length_map, List.length_append, List.length_cons, List.length_range]
    at count ⊢
  omega

/-- A turn that leaves queue, workers and hand as they are. -/
theorem stay (queued : Queued threadCount started past server)
    (threads : next.pool.threadCount = server.pool.threadCount)
    (queue : next.pool.queue = server.pool.queue)
    (hand : next.position.hand = server.position.hand) (busy : next.busy = server.busy)
    : Queued threadCount started past next where
  threads := threads.trans queued.threads
  fifo := by
    rw [queue, Position.command, hand]
    exact queued.fifo
  held := busy ▸ queued.held
  single := busy ▸ queued.single
  bounded := busy ▸ queued.bounded

/-- A worker takes the first command of the queue. -/
theorem pop (queued : Queued threadCount started past server) {task : Task} {rest : List Task}
    (first : server.pool.queue = task :: rest) {worker : ℕ}
    (exists' : worker < server.pool.threadCount) (free : server.free worker = true)
    : Queued threadCount (started ++ [task.requestId]) past (server.pop worker task rest) where
  threads := queued.threads
  fifo := by
    rw [queued.fifo, first]
    simp [Server.pop]
  held := by
    refine List.forall_mem_append.mpr ⟨?_, ?_⟩
    · exact fun busy member => List.mem_append_left _ (queued.held busy member)
    · exact List.forall_mem_singleton.mpr (List.mem_append_right _ List.mem_cons_self)
  single := by
    rw [Server.pop, List.map_append]
    refine List.nodup_append.mpr ⟨queued.single, List.nodup_singleton _, ?_⟩
    intro other member last here
    obtain ⟨busy, among, rfl⟩ := List.mem_map.mp member
    obtain rfl := List.mem_singleton.mp here
    exact of_decide_eq_true (List.all_eq_true.mp free busy among)
  bounded := by
    refine List.forall_mem_append.mpr ⟨queued.bounded, ?_⟩
    exact List.forall_mem_singleton.mpr (queued.threads ▸ exists')

/-- A worker that executes its command keeps its task. -/
theorem execute (queued : Queued threadCount started past server) {front back : List BusyWorker}
    {busy : BusyWorker} (holds : server.busy = front ++ busy :: back) (now : Int)
    (refusals : Refusals)
    : Queued threadCount started past (server.execute front busy back now refusals) where
  threads := queued.threads
  fifo := queued.fifo
  held := by
    obtain ⟨before, here, behind⟩ :=
      (List.forall_mem_append.mp (holds ▸ queued.held)).imp_right List.forall_mem_cons.mp
    exact List.forall_mem_append.mpr ⟨before, List.forall_mem_cons.mpr ⟨here, behind⟩⟩
  single := by
    have single := holds ▸ queued.single
    simpa [Server.execute] using single
  bounded := by
    obtain ⟨before, here, behind⟩ :=
      (List.forall_mem_append.mp (holds ▸ queued.bounded)).imp_right List.forall_mem_cons.mp
    exact List.forall_mem_append.mpr ⟨before, List.forall_mem_cons.mpr ⟨here, behind⟩⟩

/-- A worker that posts its result is free again. -/
theorem post (queued : Queued threadCount started past server) {front back : List BusyWorker}
    {busy : BusyWorker} (holds : server.busy = front ++ busy :: back) (response : Bytes)
    : Queued threadCount started (past ++ [.returned busy.task.requestId response])
        (server.post front busy back response) := by
  have fewer : (front ++ back).Sublist server.busy :=
    holds ▸ (List.sublist_cons_self busy back).append_left front
  exact
    {
      threads := queued.threads
      fifo := by
        rw [issuedCommands_append, queued.fifo]
        exact List.append_nil _
      held := fun other member => queued.held other (fewer.subset member)
      single := queued.single.sublist (fewer.map BusyWorker.worker)
      bounded := fun other member => queued.bounded other (fewer.subset member)
    }

/-- The pipeline puts the command in hand behind those in the queue, or refuses what is none. -/
theorem process (queued : Queued threadCount started past server) (room : server.HasRoom)
    {request : Request} (processes : server.position = .processing request)
    (taken : server.step .process = some (server.process request))
    : Queued threadCount started (past ++ server.seen .process) (server.process request) := by
  have hand : server.position.hand = some request := congrArg Position.hand processes
  have silent : Action.issued (server.process request) .process = [] := rfl
  cases made : commandOf request.line with
  | none =>
      have posted
          : (server.process request).pool.posted
            = server.pool.posted
              ++ [⟨request.client, request.seqId, refusalOf request.line, request.origin⟩] := by
        simp [Server.process, Pipeline.process_of_refused made, Request.reject, WorkerPool.push]
      have queue : (server.process request).pool.queue = server.pool.queue := by
        simp [Server.process, Pipeline.process_of_refused made, Request.reject, WorkerPool.push]
      have threads
          : (server.process request).pool.threadCount = server.pool.threadCount := by
        simp [Server.process, Pipeline.process_of_refused made, Request.reject, WorkerPool.push]
      have none : server.position.command = [] := by simp [Position.command, hand, made]
      rw [seen_of_step taken posted, silent]
      refine ⟨threads.trans queued.threads, ?_, queued.held, queued.single, queued.bounded⟩
      rw [issuedCommands_append, queued.fifo, queue, none]
      exact List.append_nil _
  | some command =>
      have queue := room.process processes made
      have posted : (server.process request).pool.posted = server.pool.posted := by
        simp [Server.process, queue]
      have held : server.position.command = [request.requestId] := by
        simp [Position.command, hand, made]
      rw [seen_eq_nil taken posted silent, List.append_nil]
      refine ⟨?_, ?_, queued.held, queued.single, queued.bounded⟩
      · rw [Server.process, queue]
        exact queued.threads
      · rw [queued.fifo, held, Server.process, queue, List.map_append, List.map_singleton]
        exact congrArg _ (List.append_nil _).symm

/-- A turn of the read loop takes at most one line into hand. -/
theorem readLine (queued : Queued threadCount started past server) {client : Socket}
    {connection : Connection} (reads : server.position = .reading client)
    (taken : server.step .readLine = some (server.readLine client connection))
    : Queued threadCount started (past ++ server.seen .readLine)
        (server.readLine client connection) := by
  have empty : server.position.hand = none := congrArg Position.hand reads
  have posted : (server.readLine client connection).pool.posted = server.pool.posted := by
    unfold Server.readLine
    split <;> rfl
  rw [seen_of_step taken (posted.trans (List.append_nil _).symm), List.map_nil, List.append_nil,
    Action.issued]
  rcases turn : connection.readTurn server.queueOver90 with _ | rest | rest | ⟨line, rest⟩
  · simp only [Server.readLine, turn, Position.hand, Option.toList_none, List.map_nil,
      List.append_nil]
    exact queued.stay rfl rfl empty.symm rfl
  · simp only [Server.readLine, turn, putConnection, empty, Option.toList_none, List.map_nil,
      List.append_nil]
    exact queued.stay rfl rfl rfl rfl
  · simp only [Server.readLine, turn, Position.hand, Option.toList_none, List.map_nil,
      List.append_nil]
    exact queued.stay rfl rfl empty.symm rfl
  · simp only [Server.readLine, turn, Position.hand, Option.toList_some, List.map_singleton]
    have none : server.position.command = [] := by simp [Position.command, empty]
    refine ⟨queued.threads, ?_, queued.held, queued.single, queued.bounded⟩
    rw [issuedCommands_append, queued.fifo, none, List.append_nil, List.append_assoc]
    cases made : commandOf line <;>
      simp [issuedCommands, Position.command, Position.hand, putConnection, made,
        Request.requestId]

/-- Every step keeps the order of the queue, by cases on what it does. -/
theorem step (queued : Queued threadCount started past server) (room : server.HasRoom)
    (taken : server.step action = some next)
    : ∃ started', Queued threadCount started' (past ++ server.seen action) next := by
  cases takes_of_step taken with
  | accepted idle =>
      rw [seen_eq_nil taken rfl rfl, List.append_nil]
      exact ⟨started, queued.stay rfl rfl rfl rfl⟩
  | received idle found =>
      rw [seen_eq_nil taken rfl rfl, List.append_nil]
      exact ⟨started, queued.stay rfl rfl (congrArg Position.hand idle).symm rfl⟩
  | disconnected client idle =>
      rw [seen_eq_nil taken rfl (Action.issued_of_none (congrArg Position.hand idle) _),
        List.append_nil]
      exact ⟨started, queued.stay rfl rfl rfl rfl⟩
  | readLine reads found => exact ⟨started, queued.readLine reads taken⟩
  | process processes => exact ⟨started, queued.process room processes taken⟩
  | drain idle =>
      rw [seen_eq_nil taken rfl rfl, List.append_nil]
      exact ⟨started, queued.stay rfl rfl (congrArg Position.hand idle).symm rfl⟩
  | drained drains =>
      rw [seen_eq_nil taken rfl rfl, List.append_nil]
      exact ⟨started, queued.stay rfl rfl (congrArg Position.hand drains).symm rfl⟩
  | @deliver result rest drains =>
      have posted : (server.deliver result rest).pool.posted = server.pool.posted := by
        unfold Server.deliver
        split <;> rfl
      rw [seen_eq_nil taken posted rfl, List.append_nil]
      refine ⟨started, ?_⟩
      have empty : server.position.hand = none := congrArg Position.hand drains
      unfold Server.deliver
      split
      · exact queued.stay rfl rfl empty.symm rfl
      · exact queued.stay rfl rfl empty.symm rfl
  | @pop worker task rest first =>
      rw [seen_eq_nil taken rfl rfl, List.append_nil]
      simp only [Server.step, first] at taken
      obtain ⟨met, -⟩ := Option.ite_none_right_eq_some.mp taken
      exact ⟨_, queued.pop first met.1 met.2⟩
  | execute holds =>
      rw [seen_eq_nil taken rfl rfl, List.append_nil]
      exact ⟨started, queued.execute holds _ _⟩
  | @post worker front busy back response holds done =>
      have posted
          : (server.post front busy back response).pool.posted
            = server.pool.posted ++ [busy.task.result response] := rfl
      rw [seen_of_step taken posted]
      exact ⟨started, queued.post holds response⟩
  | rejected | written | unpause | sweep =>
      rw [seen_eq_nil taken rfl rfl, List.append_nil]
      exact ⟨started, queued.stay rfl rfl rfl rfl⟩

/-- Of the commands issued before one that a worker holds, those still to be executed are with other
workers.
-/
theorem among_others (queued : Queued threadCount started past server)
    (once : (issuedCommands past).Nodup) {front back : List BusyWorker} {busy : BusyWorker}
    (holds : server.busy = front ++ busy :: back) {other : Task}
    (unexecuted : other ∈ server.work.unexecuted)
    (before : IssuedBefore past other.requestId busy.task.requestId)
    : other ∈ (front ++ back).map BusyWorker.task := by
  obtain ⟨earlier, later, cut, among⟩ := before
  have own := queued.held busy (holds ▸ List.mem_append_right _ List.mem_cons_self)
  obtain ⟨first, last, split⟩ := List.append_of_mem own
  have fifo := queued.fifo
  rw [split, List.append_assoc, List.cons_append] at fifo
  have alone := (List.nodup_cons.mp (List.nodup_middle.mp (fifo ▸ once))).1
  rw [List.mem_append, not_or] at alone
  obtain ⟨rfl, -⟩ :=
    (List.append_cons_inj_of_notMem alone.1 alone.2).mp (fifo.symm.trans cut)
  -- a command that is earlier than a started one has been started too, so it is not in the queue
  have started' : other.requestId ∈ started := split ▸ List.mem_append_left _ among
  rw [queued.fifo] at once
  have apart := (List.nodup_append.mp once).2.2
  rcases List.mem_append.mp unexecuted with busy' | queue
  · obtain ⟨holder, member, rfl⟩ := List.mem_map.mp busy'
    have member := List.mem_of_mem_filter member
    rw [show server.work.busy = front ++ busy :: back from holds] at member
    rcases List.mem_append.mp member with before | behind
    · exact List.mem_map_of_mem (List.mem_append_left _ before)
    · rcases List.mem_cons.mp behind with rfl | behind
      · exact absurd among alone.1
      · exact List.mem_map_of_mem (List.mem_append_right _ behind)
  · have later : other.requestId ∈ server.pool.queue.map Task.requestId :=
      List.mem_map_of_mem queue
    exact absurd rfl (apart _ started' _ (List.mem_append_left _ later))

end Queued

/-- Every command is issued once. -/
theorem nodup_issuedCommands {past : List RequestEvent}
    (fresh
      : ∀ front id line back,
          past = front ++ .called id line :: back → ∀ other, .called id other ∉ front)
    : (issuedCommands past).Nodup := by
  induction past using List.reverseRecOn with
  | nil => exact List.nodup_nil
  | append_singleton past event ih =>
      rw [issuedCommands_append]
      have earlier : (issuedCommands past).Nodup := by
        refine ih ?_
        rintro front id line back rfl
        exact fresh front id line (back ++ [event]) (by simp)
      refine List.nodup_append.mpr ⟨earlier, ?_, ?_⟩
      · cases event with
        | returned => exact List.nodup_nil
        | called id line => cases made : commandOf line <;> simp [issuedCommands, made]
      · rintro id before other last rfl
        obtain ⟨line, called⟩ := exists_called_of_issued before
        obtain ⟨line', called'⟩ := exists_called_of_issued last
        obtain rfl := List.mem_singleton.mp called'
        exact fresh past id line' [] rfl line called

section Runs

variable {threadCount capacity : ℕ} {store : LoggedStore} {clock : Int}
  {steps : List (Server × Action)} {server next : Server} {action : Action}

/-- By induction on the run. -/
theorem queued_of_run (positive : 0 < capacity)
    (run : TransitionSystem.Run step (startWith threadCount capacity store clock) steps server)
    : ∃ started, Queued threadCount started (history steps) server := by
  induction run with
  | nil =>
      exact ⟨[], rfl, rfl, by simp [startWith, start], List.nodup_nil, by simp [startWith, start]⟩
  | snoc earlier taken ih =>
      obtain ⟨started, queued⟩ := ih
      obtain ⟨⟨-, room⟩, -⟩ := serialized_of_run positive earlier
      rw [history_append, history_singleton]
      exact queued.step room taken

/-- A command that is executed overtakes fewer commands than there are workers, namely some of those
that the others hold; with one worker it overtakes none. By induction on the run.
-/
theorem overtakes_few (positive : 0 < capacity)
    (run : TransitionSystem.Run step (startWith threadCount capacity store clock) steps server)
    : TransitionSystem.AlongHistory
        (fun front server action =>
          ∀ task ∈ server.executing action,
            ∃ few : List Task,
              few.length < threadCount
              ∧ ∀ other ∈ server.work.unexecuted,
                  IssuedBefore (history front) other.requestId task.requestId → other ∈ few)
        steps := by
  induction run with
  | nil => simp [TransitionSystem.AlongHistory]
  | @snoc steps server action next earlier taken ih =>
      refine TransitionSystem.alongHistory_snoc.mpr ⟨ih, ?_⟩
      intro task executes
      obtain ⟨started, queued⟩ := queued_of_run positive earlier
      obtain ⟨-, order, serialized⟩ := serialized_of_run positive earlier
      have once := nodup_issuedCommands serialized.linearizes.fresh
      cases action with
      | execute worker now refusals =>
          obtain ⟨front, busy, back, holds, -, runs, -⟩ := execute_of_step taken
          obtain rfl := Option.some.inj (runs.symm.trans executes)
          refine ⟨(front ++ back).map BusyWorker.task, ?_, ?_⟩
          · rw [List.length_map]
            exact queued.others_lt holds
          · exact fun other unexecuted before => queued.among_others once holds unexecuted before
      | accept | recv | readLine | process | write | hangup | drain | deliver | unpause | pop | post
      | sweep => cases executes

end Runs

/-- The second one of three commands is executed first, and overtakes one. -/
def overtaking : List Action :=
  [.accept 5 [], .recv 5 (some (ascii "SET k v\nGET k\nDEL k\n")), .readLine, .process, .readLine,
    .process, .readLine, .process, .readLine, .pop 0, .pop 1, .execute 1 0 .none]

theorem overtakes_few_overtaking
    : ∃ steps server,
        TransitionSystem.Run step (startWith 2 8 (.empty 1024 0) 0) steps server
        ∧ issuedCommands (history steps) = [(0, 0), (0, 1), (0, 2)]
        ∧ server.work.unexecuted.map Task.requestId = [(0, 0), (0, 2)]
        ∧ TransitionSystem.AlongHistory
            (fun front server action =>
              ∀ task ∈ server.executing action,
                ∃ few : List Task,
                  few.length < 2
                  ∧ ∀ other ∈ server.work.unexecuted,
                      IssuedBefore (history front) other.requestId task.requestId → other ∈ few)
            steps := by
  have traced
      : TransitionSystem.trace step (startWith 2 8 (.empty 1024 0) 0) overtaking = some _ := rfl
  have run := TransitionSystem.run_of_trace traced
  exact ⟨_, _, run, rfl, rfl, overtakes_few (by decide) run⟩

end Server

end InMemoryDB
