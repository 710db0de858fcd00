import InMemoryDB.Core.Isolation
import InMemoryDB.Network.Backpressure
import InMemoryDB.Network.Sequential

/-! Whether the replies on a connection are those of its commands in their order. Workers take
the commands from the queue in that order, but one may execute its command before another has
executed an earlier one.
-/

namespace InMemoryDB

/-- What a server has under way: what its workers hold, the queue, the request in the hand of
the reactor, the results posted so far, and the store.
-/
structure Work where
  busy : List BusyWorker
  queue : List Task
  hand : Option Request
  posted : List TaskResult
  router : ShardRouter
  clock : Int

/-- The request that the reactor is about to hand to the pipeline. -/
def Position.hand : Position → Option Request
  | .processing request => some request
  | .idle | .draining _ | .reading _ => none

def Server.work (server : Server) : Work where
  busy := server.busy
  queue := server.pool.queue
  hand := server.position.hand
  posted := server.pool.posted
  router := server.store.router
  clock := server.clock

namespace Work

/-- The tasks whose commands are still to be executed. -/
def unexecuted (work : Work) : List Task :=
  (work.busy.filter fun busy => busy.response.isNone).map BusyWorker.task ++ work.queue

/-- The numbers of the requests of a connection among them. -/
def pending (id : ℕ) (work : Work) : List ℕ :=
  (work.unexecuted.filter fun task => task.origin = id).map Task.sequenceId

/-- The numbered requests of a connection that are still to be executed or refused. -/
def waiting (id : ℕ) (work : Work) : List ℕ :=
  work.pending id
    ++ (work.hand.toList.filter fun request => request.origin = id).map Request.seqId

variable {work : Work} {request : Request}

theorem waiting_of_none (idle : work.hand = none) (id : ℕ)
    : work.waiting id = work.pending id := by
  simp [waiting, idle]

theorem waiting_of_some (held : work.hand = some request) (id : ℕ)
    : work.waiting id
      = work.pending id ++ if request.origin = id then [request.seqId] else [] := by
  by_cases own : request.origin = id <;> simp [waiting, held, own]

theorem mem_waiting {id number : ℕ}
    : number ∈ work.waiting id
      ↔ (∃ task ∈ work.unexecuted, task.origin = id ∧ task.sequenceId = number)
        ∨ ∃ request ∈ work.hand, request.origin = id ∧ request.seqId = number := by
  simp [waiting, pending, and_assoc]

/-- The work when a worker has executed the command of its task. -/
def executed (front : List BusyWorker) (done : BusyWorker) (back : List BusyWorker)
    (router : ShardRouter) (now : Int) (work : Work)
    : Work :=
  { work with busy := front ++ done :: back, router := router, clock := now }

section Execution

variable {front back : List BusyWorker} {busy done : BusyWorker}

/-- The task is one of those that were still to be executed, and the others still are. -/
theorem unexecuted_executed (holds : work.busy = front ++ busy :: back)
    (waits : busy.response = none) (answered : done.response.isSome = true)
    (router : ShardRouter) (now : Int)
    : work.unexecuted.Perm
        (busy.task :: (work.executed front done back router now).unexecuted) := by
  have kept : done.response.isNone = false := by simpa using answered
  simp only [unexecuted, executed, holds, List.filter_append, List.filter_cons, waits, kept,
    Option.isNone_none, if_true, Bool.false_eq_true, if_false, List.map_append, List.map_cons,
    List.append_assoc, List.cons_append]
  exact List.perm_middle

theorem waiting_executed (holds : work.busy = front ++ busy :: back)
    (waits : busy.response = none) (answered : done.response.isSome = true)
    (router : ShardRouter) (now : Int) (id : ℕ)
    : (work.waiting id).Perm
        ((if busy.task.origin = id then [busy.task.sequenceId] else [])
          ++ (work.executed front done back router now).waiting id) := by
  have split := unexecuted_executed holds waits answered router now
  have filtered := (split.filter fun task => task.origin = id).map Task.sequenceId
  rw [waiting, waiting, ← List.append_assoc]
  refine List.Perm.append_right _ (filtered.trans ?_)
  by_cases own : busy.task.origin = id <;> simp [own, pending]

end Execution

end Work

namespace Server

-----------------------------------------------------------------------------------------
-- What is asked of a run
-----------------------------------------------------------------------------------------

/-- The task whose command a turn executes. -/
def executing (server : Server) : Action → Option Task
  | .execute worker _ _ =>
      (server.busy.find? fun busy => busy.worker = worker && busy.response.isNone).map
        BusyWorker.task
  | _ => none

/-- A worker executes a command of the connection, and an earlier one that it conflicts with
is still to be executed.
-/
def Overtakes (id : ℕ) (server : Server) (action : Action) : Prop :=
  ∃ task ∈ server.executing action,
    task.origin = id
    ∧ ∃ earlier ∈ server.work.unexecuted,
        earlier.origin = id
        ∧ earlier.sequenceId < task.sequenceId
        ∧ earlier.command.Conflicts task.command

/-- Some keys are those of the commands of the connection, and of no others. -/
def Exclusive (id : ℕ) (keys : List Bytes) (server : Server) (action : Action) : Prop :=
  ∀ task ∈ server.executing action, ∀ key ∈ task.command.key?, key ∈ keys ↔ task.origin = id

/-- The clock after a turn. -/
def clockAfter (server : Server) : Action → Int
  | .execute _ now _ | .sweep now _ => now
  | _ => server.clock

/-- None of the keys has expired by the end of the turn. -/
def NoneExpires (keys : List Bytes) (server : Server) (action : Action) : Prop :=
  ∀ key ∈ keys, Fresh (server.clockAfter action) (server.store.router.entry key)

/-- A command of the connection is refused memory. -/
def RunsOut (id : ℕ) (server : Server) (action : Action) : Prop :=
  match action with
  | .execute _ now refusals =>
      ∃ task ∈ server.executing action,
        task.origin = id
        ∧ (task.command.execute refusals now server.store.router server.store.aof).reply
          = oomReply
  | _ => False

instance (id : ℕ) (server : Server) (action : Action)
    : Decidable (server.Overtakes id action) :=
  inferInstanceAs (Decidable (∃ task ∈ server.executing action, _))

instance (id : ℕ) (keys : List Bytes) (server : Server) (action : Action)
    : Decidable (server.Exclusive id keys action) :=
  inferInstanceAs (Decidable (∀ task ∈ server.executing action, _))

instance (keys : List Bytes) (server : Server) (action : Action)
    : Decidable (server.NoneExpires keys action) :=
  inferInstanceAs (Decidable (∀ key ∈ keys, _))

instance (id : ℕ) (server : Server) : (action : Action) → Decidable (server.RunsOut id action)
  | .execute worker now refusals =>
      inferInstanceAs
        (Decidable (∃ task ∈ server.executing (.execute worker now refusals), _))
  | .accept .. | .recv .. | .readLine | .process | .write .. | .hangup _ | .drain | .deliver
  | .unpause | .pop _ | .post _ | .sweep .. => inferInstanceAs (Decidable False)

end Server

-----------------------------------------------------------------------------------------
-- One connection
-----------------------------------------------------------------------------------------

namespace Work

/-- The lines of a connection, issued so far, that are on their way through the workers: those
that wait are scheduled, and the others have the replies that they get one after the other.
-/
structure Follows (session : Session) (lines : List Bytes) (work : Work) : Prop where
  parsed
    : ∀ task ∈ work.unexecuted,
        task.origin = session.id → commandAt lines task.sequenceId = some task.command
  hand
    : ∀ request ∈ work.hand,
        request.origin = session.id
        → lines[request.seqId]? = some request.line ∧ request.seqId + 1 = lines.length
  replied
    : ∀ busy ∈ work.busy,
        busy.task.origin = session.id
        → ∀ response ∈ busy.response,
            (session.answers lines).1[busy.task.sequenceId]? = some response
  posted
    : ∀ result ∈ work.posted,
        result.origin = session.id
        → (session.answers lines).1[result.sequenceId]? = some result.response
  scheduled : session.Scheduled lines (work.waiting session.id) work.router work.clock

namespace Follows

variable {session : Session} {lines : List Bytes} {work : Work} {request : Request}

/-- Replies to some lines are those to the first ones of more. -/
theorem answers_append {number : ℕ} {reply : Bytes}
    (answered : (session.answers lines).1[number]? = some reply) (line : Bytes)
    : (session.answers (lines ++ [line])).1[number]? = some reply := by
  have within := (List.getElem?_eq_some_iff.mp answered).1
  rw [Session.answers, LoggedStore.answerAll_append]
  exact (List.getElem?_append_left within).trans answered

/-- Before the connection has issued a line, and where nothing of its number is under way. -/
theorem start (busy : ∀ busy ∈ work.busy, busy.task.origin ≠ session.id)
    (queue : ∀ task ∈ work.queue, task.origin ≠ session.id) (hand : work.hand = none)
    (posted : ∀ result ∈ work.posted, result.origin ≠ session.id)
    (shows
      : ∀ key ∈ session.keys,
          session.Shows work.clock (work.router.entry key) (session.store.router.entry key))
    : work.Follows session [] := by
  have others : ∀ task ∈ work.unexecuted, task.origin ≠ session.id := by
    intro task member
    rcases List.mem_append.mp member with held | queued
    · obtain ⟨mine, among, rfl⟩ := List.mem_map.mp held
      exact busy mine (List.mem_filter.mp among).1
    · exact queue task queued
  constructor
  case parsed => exact fun task member own => absurd own (others task member)
  case hand => simp [hand]
  case replied => exact fun mine member own => absurd own (busy mine member)
  case posted => exact fun result member own => absurd own (posted result member)
  case scheduled =>
    have none : work.waiting session.id = [] := by
      rw [waiting_of_none hand, pending, List.filter_eq_nil_iff.mpr ?_, List.map_nil]
      simpa using others
    rw [none]
    exact .start shows

/-- The connection issues a line. -/
theorem issue (follows : work.Follows session lines) (idle : work.hand = none)
    (own : request.origin = session.id) (number : request.seqId = lines.length)
    : Follows session (lines ++ [request.line]) { work with hand := some request } where
  parsed task member origin := by
    have made := follows.parsed task member origin
    rwa [commandAt_append_left (lt_length_of_commandAt made)]
  hand other held _ := by
    obtain rfl := Option.some.inj held
    simp [number]
  replied busy member origin response done :=
    answers_append (follows.replied busy member origin response done) _
  posted result member origin := answers_append (follows.posted result member origin) _
  scheduled := by
    rw [waiting_of_some rfl, if_pos own, number]
    have more := follows.scheduled.issue request.line
    rwa [waiting_of_none idle] at more

/-- Another connection issues a line. -/
theorem issueOther (follows : work.Follows session lines) (idle : work.hand = none)
    (other : request.origin ≠ session.id)
    : Follows session lines { work with hand := some request } where
  parsed := follows.parsed
  hand held same origin := by
    obtain rfl := Option.some.inj same
    exact absurd origin other
  replied := follows.replied
  posted := follows.posted
  scheduled := by
    rw [waiting_of_some rfl, if_neg other, List.append_nil]
    have same := follows.scheduled
    rwa [waiting_of_none idle] at same

/-- The pipeline refuses a line that makes no command. -/
theorem refuse (follows : work.Follows session lines) (held : work.hand = some request)
    (refused : commandOf request.line = none)
    : Follows session lines
        { work with
          hand := none
          posted :=
            work.posted
              ++ [⟨request.client, request.seqId, refusalOf request.line, request.origin⟩] } where
  parsed := follows.parsed
  hand other held' := by cases held'
  replied := follows.replied
  posted result member origin := by
    rcases List.mem_append.mp member with before | last
    · exact follows.posted result before origin
    · obtain rfl := List.mem_singleton.mp last
      obtain ⟨found, -⟩ := follows.hand request held origin
      rw [Session.answers, LoggedStore.replies_answerAll, found, Option.map_some,
        LoggedStore.answer, refused]
  scheduled := by
    have before := follows.scheduled
    rw [waiting_of_some held] at before
    rw [waiting_of_none rfl]
    by_cases own : request.origin = session.id
    · obtain ⟨found, -⟩ := follows.hand request held own
      rw [if_pos own] at before
      apply before.refuse (List.perm_append_singleton _ _)
      rw [commandAt, found, Option.bind_some, refused]
    · rwa [if_neg own, List.append_nil] at before

/-- The pipeline puts the command of a line into the queue. -/
theorem enqueue (follows : work.Follows session lines) (held : work.hand = some request)
    {command : ICommand} (made : commandOf request.line = some command)
    : Follows session lines
        { work with hand := none, queue := work.queue ++ [request.task command] } where
  parsed task member origin := by
    rw [unexecuted, ← List.append_assoc] at member
    rcases List.mem_append.mp member with before | last
    · exact follows.parsed task before origin
    · obtain rfl := List.mem_singleton.mp last
      obtain ⟨found, -⟩ := follows.hand request held origin
      exact (congrArg (Option.bind · commandOf) found).trans made
  hand other held' := by cases held'
  replied := follows.replied
  posted := follows.posted
  scheduled := by
    have before := follows.scheduled
    rw [waiting_of_some held] at before
    rw [waiting_of_none rfl]
    have more : pending session.id
          { work with hand := none, queue := work.queue ++ [request.task command] }
        = work.pending session.id
          ++ if request.origin = session.id then [request.seqId] else [] := by
      by_cases own : request.origin = session.id <;>
        simp [pending, unexecuted, Request.task, own]
    rwa [more]

/-- The same tasks are still to be executed, and whatever has moved is right. -/
theorem exchange (follows : work.Follows session lines) {next : Work}
    (same : next.unexecuted = work.unexecuted) (hand : next.hand = work.hand)
    (router : next.router = work.router) (clock : next.clock = work.clock)
    (replied
      : ∀ busy ∈ next.busy,
          busy.task.origin = session.id
          → ∀ response ∈ busy.response,
              (session.answers lines).1[busy.task.sequenceId]? = some response)
    (posted
      : ∀ result ∈ next.posted,
          result.origin = session.id
          → (session.answers lines).1[result.sequenceId]? = some result.response)
    : next.Follows session lines where
  parsed := same ▸ follows.parsed
  hand := hand ▸ follows.hand
  replied := replied
  posted := posted
  scheduled := by
    rw [waiting, pending, same, hand, router, clock]
    exact follows.scheduled

/-- A worker takes the first task of the queue. -/
theorem pop (follows : work.Follows session lines) {task : Task} {rest : List Task}
    (first : work.queue = task :: rest) (worker : ℕ)
    : Follows session lines
        { work with
          queue := rest
          busy := work.busy ++ [{ worker := worker, task := task }] } := by
  apply follows.exchange
  case same => simp [unexecuted, first]
  case hand | router | clock => rfl
  case replied =>
    intro busy member origin response done
    rcases List.mem_append.mp member with before | last
    · exact follows.replied busy before origin response done
    · obtain rfl := List.mem_singleton.mp last
      cases done
  case posted => exact follows.posted

/-- A worker posts the response that it has. -/
theorem post (follows : work.Follows session lines) {front back : List BusyWorker}
    {busy : BusyWorker} (holds : work.busy = front ++ busy :: back) {response : Bytes}
    (done : busy.response = some response)
    : Follows session lines
        { work with
          busy := front ++ back
          posted := work.posted ++ [busy.task.result response] } := by
  apply follows.exchange
  case same => simp [unexecuted, holds, done]
  case hand | router | clock => rfl
  case replied =>
    intro other member
    apply follows.replied other
    rw [holds]
    rcases List.mem_append.mp member with before | behind
    · exact List.mem_append_left _ before
    · exact List.mem_append_right _ (List.mem_cons_of_mem _ behind)
  case posted =>
    intro result member origin
    rcases List.mem_append.mp member with before | last
    · exact follows.posted result before origin
    · obtain rfl := List.mem_singleton.mp last
      exact follows.replied busy (by simp [holds]) origin response done

/-- The store changes, but not in what the keys of the connection show. -/
theorem keep (follows : work.Follows session lines) {router : ShardRouter} {now : Int}
    (kept
      : ∀ key ∈ session.keys,
          content (router.entry key) = content (work.router.entry key)
          ∧ (Fresh now (router.entry key) → Fresh work.clock (work.router.entry key)))
    : Follows session lines { work with router := router, clock := now } :=
  { follows with scheduled := follows.scheduled.keep kept }

section Execution

variable {front back : List BusyWorker} {busy done : BusyWorker} {router : ShardRouter} {now : Int}

theorem parsed_executed (follows : work.Follows session lines)
    (holds : work.busy = front ++ busy :: back) (waits : busy.response = none)
    (answered : done.response.isSome = true)
    : ∀ task ∈ (work.executed front done back router now).unexecuted,
        task.origin = session.id → commandAt lines task.sequenceId = some task.command := by
  intro task member
  have split := unexecuted_executed holds waits answered router now
  exact follows.parsed task (split.mem_iff.mpr (List.mem_cons_of_mem _ member))

/-- The responses of the workers are right if the new one is. -/
theorem replied_executed (follows : work.Follows session lines)
    (holds : work.busy = front ++ busy :: back) (same : done.task = busy.task)
    (right
      : busy.task.origin = session.id
        → ∀ response ∈ done.response,
            (session.answers lines).1[busy.task.sequenceId]? = some response)
    : ∀ other ∈ (work.executed front done back router now).busy,
        other.task.origin = session.id
        → ∀ response ∈ other.response,
            (session.answers lines).1[other.task.sequenceId]? = some response := by
  intro other member
  rcases List.mem_append.mp member with before | behind
  · exact follows.replied other (by simp [holds, before])
  · rcases List.mem_cons.mp behind with rfl | behind
    · rw [same]
      exact right
    · exact follows.replied other (by simp [holds, behind])

/-- A worker executes a command of another connection. -/
theorem executeOther (follows : work.Follows session lines)
    (holds : work.busy = front ++ busy :: back) (waits : busy.response = none)
    (same : done.task = busy.task) (answered : done.response.isSome = true)
    (other : busy.task.origin ≠ session.id)
    (kept : ∀ key ∈ session.keys, router.entry key = work.router.entry key)
    (advances : work.clock ≤ now)
    : (work.executed front done back router now).Follows session lines where
  parsed := follows.parsed_executed holds waits answered
  hand := follows.hand
  replied := follows.replied_executed holds same fun own => absurd own other
  posted := follows.posted
  scheduled := by
    have moved := waiting_executed holds waits answered router now session.id
    rw [if_neg other, List.nil_append] at moved
    apply (follows.scheduled.perm moved).keep
    intro key own
    rw [executed, kept key own]
    exact ⟨rfl, fun fresh => fresh.earlier advances⟩

/-- A worker executes a command of the connection that overtakes none it conflicts with. -/
theorem execute (follows : work.Follows session lines)
    (holds : work.busy = front ++ busy :: back) (waits : busy.response = none)
    (same : done.task = busy.task) (own : busy.task.origin = session.id)
    (inTurn
      : ∀ earlier ∈ work.unexecuted,
          earlier.origin = session.id
          → earlier.sequenceId < busy.task.sequenceId
          → ¬ earlier.command.Conflicts busy.task.command)
    (keys : ∀ key, busy.task.command.key? = some key → key ∈ session.keys)
    (fresh : ∀ key ∈ session.keys, Fresh now (work.router.entry key))
    (advances : work.clock ≤ now)
    (replied
      : done.response
        = some (busy.task.command.effect now (busy.task.command.entryIn work.router)).reply)
    (changed
      : ∀ key,
          router.entry key
            = if busy.task.command.key? = some key then
                (busy.task.command.effect now (busy.task.command.entryIn work.router)).entry
              else work.router.entry key)
    : (work.executed front done back router now).Follows session lines := by
  have answered : done.response.isSome = true := by rw [replied, Option.isSome_some]
  have moved := waiting_executed holds waits answered router now session.id
  rw [if_pos own] at moved
  have mine : busy.task ∈ work.unexecuted :=
    (unexecuted_executed holds waits answered router now).mem_iff.mpr List.mem_cons_self
  have made := follows.parsed busy.task mine own
  have behind
      : ∀ number ∈ work.waiting session.id,
          number < busy.task.sequenceId
          → ∀ command,
              commandAt lines number = some command
              → ¬ command.Conflicts busy.task.command := by
    intro number waiting before command made'
    rcases mem_waiting.mp waiting with ⟨task, member, origin, rfl⟩ | ⟨request, held, origin, rfl⟩
    · obtain rfl := Option.some.inj ((follows.parsed task member origin).symm.trans made')
      exact inTurn task member origin before
    · -- the request in hand has the last number of all
      have last := (follows.hand request held origin).2
      have within := lt_length_of_commandAt made
      omega
  obtain ⟨scheduled, reply⟩ :=
    follows.scheduled.execute moved made behind keys fresh advances changed
  refine ⟨follows.parsed_executed holds waits answered, follows.hand, ?_, follows.posted,
    scheduled⟩
  apply follows.replied_executed holds same
  intro _ response there
  obtain rfl := Option.some.inj (replied.symm.trans there)
  exact reply

end Execution

end Follows

end Work

-----------------------------------------------------------------------------------------
-- Steps of the server
-----------------------------------------------------------------------------------------

namespace Server

variable {server next : Server} {action : Action}

/-- The pool runs, and while a request is in hand there is room for its command. -/
structure HasRoom (server : Server) : Prop where
  running : server.pool.running = true
  size : 0 < server.pool.maxQueueSize
  room : ∀ request ∈ server.position.hand, server.queueOver90 = false

theorem hasRoom_start (threadCount : ℕ) (store : LoggedStore) (clock : Int)
    : (start threadCount store clock).HasRoom where
  running := rfl
  size := by simp [start]
  room := by simp [start, Position.hand]

/-- Behind the check of the queue the command of a line gets into it. -/
theorem HasRoom.process (room : server.HasRoom) {request : Request}
    (processes : server.position = .processing request) {command : ICommand}
    (made : commandOf request.line = some command)
    : Pipeline.process request server.pool
      = { server.pool with queue := server.pool.queue ++ [request.task command] } := by
  have calm := room.room request (by simp [processes, Position.hand])
  have size := room.size
  have free : ¬ server.pool.queue.length ≥ server.pool.maxQueueSize := by
    simp only [queueOver90, decide_eq_false_iff_not] at calm
    omega
  rw [Pipeline.process, Pipeline.processWith_of_parsed rfl made]
  simp [room.running, free]

/-- Only the reactor takes a request in hand, and it looks at the queue before that; by cases
on the step.
-/
theorem HasRoom.step (room : server.HasRoom) (taken : server.Takes action next)
    : next.HasRoom := by
  obtain ⟨running, size, calm⟩ := room
  cases taken with
  | received | drain | drained =>
      exact ⟨running, size, by simp [beginRead, beginDrain, Position.hand]⟩
  | @readLine client connection reads found =>
      unfold Server.readLine
      rcases connection.readTurn_cases server.queueOver90 with
        ⟨cut, turn⟩
        | ⟨line, rest, whole, absent, cut,
            ⟨empty, turn⟩ | ⟨filled, full, turn⟩ | ⟨filled, free, turn⟩⟩
      · rw [turn]
        exact ⟨running, size, by simp [Position.hand]⟩
      · rw [turn]
        exact ⟨running, size, calm⟩
      · rw [turn]
        exact ⟨running, size, by simp [Position.hand]⟩
      · rw [turn]
        have free' : server.queueOver90 = false := by
          simpa using fun crowded => free (.inr crowded)
        exact ⟨running, size, fun _ _ => free'⟩
  | @process request processes =>
      have kept : (Pipeline.process request server.pool).running = server.pool.running
          ∧ (Pipeline.process request server.pool).maxQueueSize = server.pool.maxQueueSize := by
        rcases Pipeline.process_cases request server.pool with ⟨text, -, same⟩ | ⟨command, same⟩
        · rw [same]
          exact ⟨rfl, rfl⟩
        · rw [same]
          exact ⟨rfl, rfl⟩
      exact ⟨kept.1.trans running, size.trans_eq kept.2.symm,
        by simp [Server.process, Position.hand]⟩
  | @deliver result rest drains =>
      unfold Server.deliver
      split
      · exact ⟨running, size, by simp [Position.hand]⟩
      · exact ⟨running, size, by simp [Position.hand]⟩
  | pop first =>
      refine ⟨running, size, fun request held => ?_⟩
      have before := calm request held
      simp only [queueOver90, first, List.length_cons, decide_eq_false_iff_not] at before
      apply decide_eq_false
      simp only [Server.pop]
      omega
  | accepted | rejected | disconnected | written | unpause | execute | post | sweep =>
      exact ⟨running, size, calm⟩

/-- The pool runs and has room in every run, by induction on the run. -/
theorem hasRoom_of_run {threadCount : ℕ} {store : LoggedStore} {clock : Int}
    {steps : List (Server × Action)}
    (run : TransitionSystem.Run step (start threadCount store clock) steps server)
    : server.HasRoom := by
  induction run with
  | nil => exact hasRoom_start ..
  | snoc _ taken ih => exact ih.step (takes_of_step taken)

/-- The task whose command is executed is one of those that a worker holds. -/
theorem execute_of_step {worker : ℕ} {now : Int} {refusals : Refusals}
    (taken : server.step (.execute worker now refusals) = some next)
    : ∃ front busy back,
        server.busy = front ++ busy :: back
        ∧ busy.response = none
        ∧ server.executing (.execute worker now refusals) = some busy.task
        ∧ server.clock ≤ now
        ∧ next = server.execute front busy back now refusals := by
  have first {front back : List BusyWorker} {busy : BusyWorker} {condition : BusyWorker → Bool}
      {items : List BusyWorker} (cut : extract condition items = some (front, busy, back))
      : items.find? condition = some busy := by
    induction items generalizing front with
    | nil => cases cut
    | cons item rest ih =>
        unfold extract at cut
        split at cut
        · rename_i met
          obtain ⟨rfl, rfl, rfl⟩ := by simpa using cut
          simp [met]
        · rename_i unmet
          obtain ⟨⟨others, tail⟩, later, same⟩ := Option.map_eq_some_iff.mp cut
          obtain ⟨-, rfl⟩ := Prod.mk.inj same
          rw [List.find?_cons_of_neg unmet]
          exact ih later
  simp only [step] at taken
  split at taken
  · cases taken
  · rename_i front busy back cut
    split at taken
    · rename_i advances
      obtain ⟨holds, met⟩ := extract_eq_some cut
      simp only [Bool.and_eq_true, Option.isNone_iff_eq_none] at met
      refine ⟨front, busy, back, holds, met.2, ?_, advances, (Option.some.inj taken).symm⟩
      rw [executing, first cut, Option.map_some]
    · cases taken

/-- What a numbered connection has issued stays as it is in a step. -/
def KeepsLines (server next : Server) : Prop :=
  ∀ client connection,
    next.connections.lookup client = some connection
    → ∃ earlier,
        server.connections.lookup client = some earlier
        ∧ connection.id = earlier.id
        ∧ connection.issued = earlier.issued
        ∧ connection.nextSeqIssue = earlier.nextSeqIssue

theorem keepsLines_of_eq (same : next.connections = server.connections)
    : server.KeepsLines next := by
  intro client connection found
  rw [same] at found
  exact ⟨connection, found, rfl, rfl, rfl⟩

theorem keepsLines_of_insert {client : Socket} {connection changed : Connection}
    (found : server.connections.lookup client = some connection)
    (moved : next.connections = server.connections.insert client changed)
    (id : changed.id = connection.id) (issued : changed.issued = connection.issued)
    (number : changed.nextSeqIssue = connection.nextSeqIssue)
    : server.KeepsLines next := by
  intro other state there
  rw [moved] at there
  rcases lookup_insert_cases there with ⟨rfl, rfl⟩ | ⟨-, known⟩
  · exact ⟨connection, found, id, issued, number⟩
  · exact ⟨state, known, rfl, rfl, rfl⟩

/-- Before the connection of a session is opened, its keys show what they did at the start;
while it is open, its lines are numbered and on their way.
-/
structure Ordered (session : Session) (server : Server) : Prop where
  unopened
    : server.accepted ≤ session.id
      → ∀ key ∈ session.keys,
          session.Shows server.clock (server.store.router.entry key)
            (session.store.router.entry key)
  opened
    : ∀ client connection,
        server.connections.lookup client = some connection
        → connection.id = session.id
        → connection.nextSeqIssue = connection.issued.length
          ∧ server.work.Follows session connection.issued

namespace Ordered

variable {session : Session}

/-- A step that issues no line. -/
theorem turn (ordered : server.Ordered session) (lines : server.KeepsLines next)
    (mono : server.accepted ≤ next.accepted)
    (shows
      : server.accepted ≤ session.id
        → ∀ key ∈ session.keys,
            session.Shows server.clock (server.store.router.entry key)
              (session.store.router.entry key)
            → session.Shows next.clock (next.store.router.entry key)
                (session.store.router.entry key))
    (follows
      : ∀ lines, server.work.Follows session lines → next.work.Follows session lines)
    : next.Ordered session where
  unopened early key own :=
    shows (mono.trans early) key own (ordered.unopened (mono.trans early) key own)
  opened client connection found same := by
    obtain ⟨earlier, known, id, issued, number⟩ := lines client connection found
    obtain ⟨count, before⟩ := ordered.opened client earlier known (id.symm.trans same)
    rw [number, issued]
    exact ⟨count, follows _ before⟩

/-- A step that changes nothing under way. -/
theorem stay (ordered : server.Ordered session) (lines : server.KeepsLines next)
    (mono : server.accepted ≤ next.accepted) (same : next.work = server.work)
    : next.Ordered session := by
  refine ordered.turn lines mono ?_ fun lines follows => same ▸ follows
  intro _ key _ shows
  have clock : next.clock = server.clock := congrArg Work.clock same
  have router : next.store.router = server.store.router := congrArg Work.router same
  rwa [clock, router]

/-- The connection is opened, when nothing of its number is under way, or another one is. -/
theorem accept (ordered : server.Ordered session) (tagged : server.traffic.Tagged)
    (idle : server.position = .idle) (client : Socket) (ip : Bytes)
    : Ordered session
        { server.putConnection client { clientIp := ip, id := server.accepted } with
          totalConnections := server.totalConnections + 1
          accepted := server.accepted + 1 } where
  unopened early := ordered.unopened (Nat.le_of_succ_le early)
  opened := by
    intro other connection found same
    rcases lookup_insert_cases found with ⟨rfl, rfl⟩ | ⟨-, known⟩
    · have unasked : ∀ ticket ∈ server.traffic.outstanding, ticket.origin ≠ session.id := by
        intro ticket member own
        have before := tagged.outstanding ticket member
        rw [own, ← same] at before
        exact lt_irrefl _ before
      refine ⟨rfl, .start ?_ ?_ ?_ ?_ (ordered.unopened same.le)⟩
      · intro busy member
        refine unasked busy.task.ticket (List.mem_append_left _ ?_)
        simpa [traffic] using .inl ⟨busy, member, rfl⟩
      · intro task member
        refine unasked task.ticket (List.mem_append_left _ ?_)
        simpa [traffic] using .inr (.inl ⟨task, member, rfl⟩)
      · exact congrArg Position.hand idle
      · intro result member own
        have before := tagged.posted result member
        rw [own, ← same] at before
        exact lt_irrefl _ before
    · exact ordered.opened other connection known same

/-- A turn of the read loop issues at most one line, by cases on the turn. -/
theorem readLine (ordered : server.Ordered session) (tagged : server.traffic.Tagged)
    {client : Socket} {connection : Connection} (reads : server.position = .reading client)
    (found : server.connections.lookup client = some connection)
    : (server.readLine client connection).Ordered session := by
  have idle : server.work.hand = none := congrArg Position.hand reads
  have read : server.position.hand = none := congrArg Position.hand reads
  have stays (rest : Bytes) (position : Position) (empty : position.hand = none)
      (paused : Finset Socket)
      : Ordered session
          { server.putConnection client { connection with readBuffer := rest } with
            pausedReads := paused
            position := position } := by
    refine ordered.stay (keepsLines_of_insert found rfl rfl rfl rfl) le_rfl ?_
    simp only [Server.work, putConnection, empty, read]
  unfold Server.readLine
  split
  · refine ordered.stay (keepsLines_of_eq rfl) le_rfl ?_
    simp only [Server.work, reads, Position.hand]
  · rename_i rest _
    exact stays rest server.position idle server.pausedReads
  · rename_i rest _
    exact stays rest .idle rfl (insert client server.pausedReads)
  · rename_i line rest _
    let request : Request :=
      ⟨client, line, connection.nextSeqIssue, connection.clientIp, connection.id⟩
    refine ⟨ordered.unopened, ?_⟩
    intro other state there same
    rcases lookup_insert_cases there with ⟨rfl, rfl⟩ | ⟨different, known⟩
    · obtain ⟨count, follows⟩ := ordered.opened _ connection found same
      have issued : Work.Follows session (connection.issued ++ [request.line])
          { server.work with hand := some request } :=
        follows.issue idle same count
      refine ⟨?_, issued⟩
      simp [ConnectionState.issue, count]
    · obtain ⟨count, follows⟩ := ordered.opened other state known same
      refine ⟨count, follows.issueOther idle ?_⟩
      intro own
      exact different (tagged.unique known found (same.trans own.symm))

/-- The pipeline refuses the line in hand or puts its command into the queue. -/
theorem process (ordered : server.Ordered session) (room : server.HasRoom) {request : Request}
    (processes : server.position = .processing request)
    : (server.process request).Ordered session := by
  have held : server.work.hand = some request := congrArg Position.hand processes
  refine ordered.turn (keepsLines_of_eq rfl) le_rfl (fun _ _ _ shows => shows) ?_
  intro lines follows
  cases made : commandOf request.line with
  | none =>
      have same : (server.process request).work
          = { server.work with
              hand := none
              posted :=
                server.work.posted
                  ++ [⟨request.client, request.seqId, refusalOf request.line,
                    request.origin⟩] } := by
        simp only [Server.work, Server.process, Pipeline.process_of_refused made, Request.reject,
          WorkerPool.push, Position.hand]
      rw [same]
      exact follows.refuse held made
  | some command =>
      have same : (server.process request).work
          = { server.work with
              hand := none
              queue := server.work.queue ++ [request.task command] } := by
        simp only [Server.work, Server.process, room.process processes made, Position.hand]
      rw [same]
      exact follows.enqueue held made

/-- A worker executes a command. -/
theorem execute (ordered : server.Ordered session) {worker : ℕ} {now : Int}
    {refusals : Refusals} (taken : server.step (.execute worker now refusals) = some next)
    (exclusive : server.Exclusive session.id session.keys (.execute worker now refusals))
    (lasting : server.NoneExpires session.keys (.execute worker now refusals))
    (memory : ¬ server.RunsOut session.id (.execute worker now refusals))
    (inTurn : ¬ server.Overtakes session.id (.execute worker now refusals))
    (early : server.accepted ≤ session.id → ∀ busy ∈ server.busy, busy.task.origin ≠ session.id)
    : next.Ordered session := by
  obtain ⟨front, busy, back, holds, waits, executes, advances, rfl⟩ := execute_of_step taken
  have keys := exclusive busy.task executes
  have kept (other : busy.task.origin ≠ session.id)
      : ∀ key ∈ session.keys,
          (server.execute front busy back now refusals).store.router.entry key
            = server.store.router.entry key := by
    intro key own
    have changed := busy.task.command.changedAt refusals now server.store.router server.store.aof
    exact changed.entry fun named => other ((keys key named).mp own)
  refine ordered.turn (keepsLines_of_eq rfl) le_rfl ?_ ?_
  · intro unopened key own shows
    rw [kept (early unopened busy (by simp [holds])) key own]
    exact ⟨shows.content, fun fresh => shows.fresh (fresh.earlier advances)⟩
  · intro lines follows
    by_cases own : busy.task.origin = session.id
    · have granted : busy.task.command.execute refusals now server.store.router server.store.aof
          = busy.task.command.execute .none now server.store.router server.store.aof := by
        rcases busy.task.command.execute_none_or_refused refusals now server.store.router
          server.store.aof with same | ⟨-, refused⟩
        · exact same
        · exact absurd ⟨busy.task, executes, own, congrArg Execution.reply refused⟩ memory
      have done := busy.task.command.realizes server.store.router server.store.aof now
      rw [← granted] at done
      refine follows.execute holds waits rfl own ?_ ?_ lasting advances (congrArg some done.reply)
        done.entry
      · intro earlier member origin before conflict
        exact inTurn ⟨busy.task, executes, own, earlier, member, origin, before, conflict⟩
      · exact fun key named => (keys key named).mpr own
    · exact follows.executeOther holds waits rfl rfl own (kept own) advances

/-- The sweeper evicts one key. Of a key that has not expired it only takes a tombstone. -/
theorem sweep (ordered : server.Ordered session) {now : Int} (key : Bytes)
    (lasting : ∀ key ∈ session.keys, Fresh now (server.store.router.entry key))
    (advances : server.clock ≤ now)
    : (server.sweep now key).Ordered session := by
  have swept (other : Bytes)
      : (server.sweep now key).store.router.entry other
        = if other = key then liveEntry now (server.store.router.entry key)
          else server.store.router.entry other :=
    server.store.router.entry_evictExpired now key other
  have kept
      : ∀ other ∈ session.keys,
          content ((server.sweep now key).store.router.entry other)
            = content (server.store.router.entry other)
          ∧ (Fresh now ((server.sweep now key).store.router.entry other)
            → Fresh server.clock (server.store.router.entry other)) := by
    intro other own
    have fresh := lasting other own
    refine ⟨?_, fun _ => fresh.earlier advances⟩
    rw [swept other]
    split
    · rename_i same
      exact same ▸ fresh.content_liveEntry
    · rfl
  refine ordered.turn (keepsLines_of_eq rfl) le_rfl ?_ fun lines follows => follows.keep kept
  intro _ other own shows
  obtain ⟨same, fresh⟩ := kept other own
  exact ⟨same.trans shows.content, fun later => shows.fresh (fresh later)⟩

/-- Every step keeps the order, by cases on what it does. -/
theorem step (ordered : server.Ordered session) (tagged : server.traffic.Tagged)
    (room : server.HasRoom) (taken : server.step action = some next)
    (exclusive : server.Exclusive session.id session.keys action)
    (lasting : server.NoneExpires session.keys action)
    (memory : ¬ server.RunsOut session.id action)
    (inTurn : ¬ server.Overtakes session.id action)
    : next.Ordered session := by
  have takes := takes_of_step taken
  have mono := accepted_mono takes
  cases takes with
  | accepted idle => exact ordered.accept tagged idle _ _
  | received idle found =>
      refine ordered.stay (keepsLines_of_insert found rfl rfl rfl rfl) mono ?_
      simp only [Server.work, beginRead, putConnection, idle, Position.hand]
  | disconnected client idle =>
      refine ordered.stay ?_ mono rfl
      intro other connection there
      exact ⟨connection, lookup_of_lookup_erase there, rfl, rfl, rfl⟩
  | readLine reads found => exact ordered.readLine tagged reads found
  | process processes => exact ordered.process room processes
  | written count found =>
      refine ordered.stay (keepsLines_of_insert found rfl rfl rfl ?_) mono rfl
      exact (ConnectionState.input_written count _).1
  | drain idle =>
      refine ordered.stay (keepsLines_of_eq rfl) mono ?_
      simp only [Server.work, beginDrain, idle, Position.hand]
  | drained drains =>
      refine ordered.stay (keepsLines_of_eq rfl) mono ?_
      simp only [Server.work, drains, Position.hand]
  | @deliver result rest drains =>
      unfold Server.deliver at mono ⊢
      split at mono
      · refine ordered.stay (keepsLines_of_eq rfl) mono ?_
        simp only [Server.work, drains, Position.hand]
      · rename_i connection found
        refine ordered.stay (keepsLines_of_insert found rfl rfl rfl ?_) mono ?_
        · exact (ConnectionState.input_place result _).1
        · simp only [Server.work, putConnection, drains, Position.hand]
  | pop first =>
      refine ordered.turn (keepsLines_of_eq rfl) mono (fun _ _ _ shows => shows) ?_
      exact fun lines follows => follows.pop first _
  | execute =>
      apply ordered.execute taken exclusive lasting memory inTurn
      intro early busy member own
      have known : busy.task.ticket ∈ server.traffic.outstanding := by
        apply List.mem_append_left _
        simpa [traffic] using .inl ⟨busy, member, rfl⟩
      have before := tagged.outstanding _ known
      exact lt_irrefl _ (before.trans_le (early.trans own.ge))
  | post holds done =>
      refine ordered.turn (keepsLines_of_eq rfl) mono (fun _ _ _ shows => shows) ?_
      exact fun lines follows => follows.post holds done
  | sweep advances => exact ordered.sweep _ lasting advances
  | rejected | unpause => exact ordered.stay (keepsLines_of_eq rfl) mono rfl

end Ordered

-----------------------------------------------------------------------------------------
-- Runs of the server
-----------------------------------------------------------------------------------------

/-- What holds of the connection of a session at the end of a run that begins before it is
opened, step by step.
-/
theorem ordered_of_run {opening : Server} {session : Session}
    {steps : List (Server × Action)}
    (tagged : opening.traffic.Tagged) (room : opening.HasRoom)
    (unopened : opening.accepted ≤ session.id) (store : session.store = opening.store)
    (clock : session.clock = opening.clock)
    (run : TransitionSystem.Run step opening steps server)
    (free : TransitionSystem.Along (AcceptsFree session.id) steps)
    (exclusive : TransitionSystem.Along (Exclusive session.id session.keys) steps)
    (lasting : TransitionSystem.Along (NoneExpires session.keys) steps)
    (memory
      : TransitionSystem.Along (fun server action => ¬ server.RunsOut session.id action) steps)
    (inTurn
      : TransitionSystem.Along (fun server action => ¬ server.Overtakes session.id action)
          steps)
    : server.traffic.OrderlyAt session.id ∧ server.Ordered session := by
  have absent {client : Socket} {connection : Connection}
      (found : opening.connections.lookup client = some connection)
      : connection.id ≠ session.id :=
    ((tagged.opened found).trans_le unopened).ne
  have kept {server next : Server} {action : Action}
      (known
        : (server.traffic.Tagged ∧ server.traffic.OrderlyAt session.id)
          ∧ server.HasRoom
          ∧ server.Ordered session)
      (proper
        : server.AcceptsFree session.id action
          ∧ server.Exclusive session.id session.keys action
          ∧ server.NoneExpires session.keys action
          ∧ ¬ server.RunsOut session.id action
          ∧ ¬ server.Overtakes session.id action)
      (taken : server.step action = some next)
      : (next.traffic.Tagged ∧ next.traffic.OrderlyAt session.id)
        ∧ next.HasRoom
        ∧ next.Ordered session := by
    obtain ⟨traffic, room, ordered⟩ := known
    obtain ⟨free, exclusive, lasting, memory, inTurn⟩ := proper
    exact ⟨orderlyAt_step traffic free taken, room.step (takes_of_step taken),
      ordered.step traffic.1 room taken exclusive lasting memory inTurn⟩
  have reached := run.invariant kept
    (fun entry member =>
      ⟨free entry member, exclusive entry member, lasting entry member, memory entry member,
        inTurn entry member⟩)
    ⟨⟨tagged, fun client connection found own => absurd own (absent found)⟩, room, ?_⟩
  · exact ⟨reached.1.2, reached.2.2⟩
  · refine ⟨?_, fun client connection found own => absurd own (absent found)⟩
    intro _ key _
    rw [store]
    exact ⟨rfl, fun fresh => clock ▸ fresh⟩

/-- Where every number has one response, and that is the item with the number, the responses
are the first items; by induction on how many there are.
-/
theorem flatMap_range_eq_take {items : List Bytes} {responses : ℕ → List Bytes} {count : ℕ}
    (each
      : ∀ number < count,
          ∃ response, responses number = [response] ∧ items[number]? = some response)
    : (List.range count).flatMap responses = items.take count := by
  induction count with
  | zero => rfl
  | succ count ih =>
      obtain ⟨response, only, found⟩ := each count (Nat.lt_succ_self count)
      rw [List.range_succ, List.flatMap_append, ih fun number before => each number (by omega),
        List.take_add_one, found]
      simp [only]

/-- The responses on an ordered connection are the replies to its lines. -/
theorem output_of_ordered {session : Session} {client : Socket} {connection : Connection}
    (orderly : server.traffic.Orderly client connection) (own : connection.id = session.id)
    (follows : server.work.Follows session connection.issued)
    : connection.sent ++ connection.writeBuffer
      = ((session.answers connection.issued).1.take connection.nextSeqExpected).flatten := by
  obtain ⟨each, output⟩ := output_of_orderly orderly
  rw [output]
  apply congrArg List.flatten
  apply flatMap_range_eq_take
  intro number before
  obtain ⟨response, only⟩ := each number before
  have member : response ∈ responsesTo connection.id number server.traffic.posted := by
    rw [only]
    exact List.mem_singleton_self response
  obtain ⟨result, among, rfl⟩ := List.mem_map.mp member
  obtain ⟨posted, mine⟩ := List.mem_filter.mp among
  obtain ⟨origin, rfl⟩ := of_decide_eq_true mine
  exact ⟨_, only, follows.posted result posted (origin.trans own)⟩

/-- Once none of its requests is outstanding, a connection has been answered in full, and its
keys show what all its lines leave.
-/
theorem complete_of_ordered {session : Session} {client : Socket} {connection : Connection}
    (orderly : server.traffic.Orderly client connection) (own : connection.id = session.id)
    (count : connection.nextSeqIssue = connection.issued.length)
    (follows : server.work.Follows session connection.issued)
    (drained : ∀ ticket ∈ server.traffic.outstanding, ticket.origin ≠ session.id)
    : connection.sent ++ connection.writeBuffer = (session.answers connection.issued).1.flatten
      ∧ ∀ key ∈ session.keys,
          session.Shows server.clock (server.store.router.entry key)
            ((session.answers connection.issued).2.router.entry key) := by
  have flushed := (complete_of_orderly orderly (own.symm ▸ drained)).1
  have length : (session.answers connection.issued).1.length = connection.issued.length :=
    LoggedStore.length_answerAll session.clock connection.issued session.store
  have none : server.work.waiting session.id = [] := by
    apply List.eq_nil_iff_forall_not_mem.mpr
    intro number member
    rcases Work.mem_waiting.mp member with ⟨task, held, origin, -⟩ | ⟨request, held, origin, -⟩
    · refine drained task.ticket (List.mem_append_left _ ?_) origin
      simp only [Work.unexecuted, work, List.mem_append, List.mem_map, List.mem_filter] at held
      simp only [traffic, List.mem_append, List.mem_map]
      rcases held with ⟨busy, ⟨among, -⟩, rfl⟩ | queued
      · exact .inl (.inl ⟨busy, among, rfl⟩)
      · exact .inl (.inr ⟨task, queued, rfl⟩)
    · refine drained request.ticket (List.mem_append_left _ (List.mem_append_right _ ?_)) origin
      have there : server.position.hand = some request := held
      revert there
      cases server.position <;> simp [Position.hand, Position.inHand]
      rintro rfl
      rfl
  have scheduled := follows.scheduled
  rw [none] at scheduled
  refine ⟨?_, fun key mine => scheduled.complete mine⟩
  rw [output_of_ordered orderly own follows, flushed, count, ← length, List.take_length]

/-- From before a connection is opened, let no other one use its keys, let these not expire, and
let its writes be given memory. As long as no line of it is dropped and none of its commands
overtakes an earlier one that it conflicts with, its bytes are the replies to its lines one
after the other, and once all are answered, its keys show what these leave.
-/
theorem replies_in_program_order (threadCount : ℕ) (store : LoggedStore) (clock : Int) (id : ℕ)
    (keys : List Bytes) {front : List (Server × Action)} {opening : Server}
    (earlier : TransitionSystem.Run step (start threadCount store clock) front opening)
    (unopened : opening.accepted ≤ id) {steps : List (Server × Action)} {server : Server}
    (run : TransitionSystem.Run step opening steps server)
    (free : TransitionSystem.Along (AcceptsFree id) steps)
    (exclusive : TransitionSystem.Along (Exclusive id keys) steps)
    (lasting : TransitionSystem.Along (NoneExpires keys) steps)
    (lasts : ∀ key ∈ keys, Fresh server.clock (server.store.router.entry key))
    (memory : TransitionSystem.Along (fun server action => ¬ server.RunsOut id action) steps)
    (whole : TransitionSystem.Along (fun server action => ¬ server.DropsLine id action) steps)
    (inTurn : TransitionSystem.Along (fun server action => ¬ server.Overtakes id action) steps)
    (client : Socket) {connection : Connection}
    (found : server.connections.lookup client = some connection) (same : connection.id = id)
    : connection.sent ++ connection.writeBuffer
        = ((opening.store.answerAll opening.clock (linesOf connection.received)).1.take
            connection.nextSeqExpected).flatten
      ∧ ((∀ ticket ∈ server.traffic.outstanding, ticket.origin ≠ id)
        → linesOf connection.readBuffer = []
        → connection.sent ++ connection.writeBuffer
            = (opening.store.answerAll opening.clock
                (linesOf connection.received)).1.flatten
          ∧ ∀ key ∈ keys,
              shown server.clock (server.store.router.entry key)
                = shown opening.clock
                    ((opening.store.answerAll opening.clock
                      (linesOf connection.received)).2.router.entry key)) := by
  subst same
  let session : Session := ⟨connection.id, keys, opening.store, opening.clock⟩
  have before := accounted_of_run earlier
  have room : opening.HasRoom := hasRoom_of_run earlier
  have reached : server.traffic.OrderlyAt session.id ∧ server.Ordered session :=
    ordered_of_run before.tagged room unopened rfl rfl run free exclusive lasting memory inTurn
  obtain ⟨orderly, ordered⟩ := reached
  have orderly := orderly client connection found rfl
  obtain ⟨count, follows⟩ := ordered.opened client connection found rfl
  -- before the connection is opened, no line of it can be dropped
  obtain ⟨dropped, conserves, none⟩ :=
    (accounted_of_run (earlier.append run)).conserved client connection found
  have lines : connection.issued ++ linesOf connection.readBuffer
      = linesOf connection.received := by
    refine conserves.iff.mpr (none.mpr (List.forall_mem_append.mpr ⟨?_, whole⟩))
    intro entry member drops
    exact absurd (before.past entry member _ drops) (by omega)
  have within : connection.nextSeqExpected ≤ (session.answers connection.issued).1.length := by
    obtain ⟨arrived, out, carried, -, -⟩ := orderly.carried
    rw [Session.answers, LoggedStore.length_answerAll, ← count, ← carried.inFlight]
    exact Nat.le_add_left _ _
  have first
      : (opening.store.answerAll opening.clock (linesOf connection.received)).1.take
          connection.nextSeqExpected
        = (session.answers connection.issued).1.take connection.nextSeqExpected := by
    rw [← lines, LoggedStore.answerAll_append]
    exact List.take_append_of_le_length within
  constructor
  · rw [first]
    exact output_of_ordered orderly rfl follows
  · intro drained consumed
    rw [consumed, List.append_nil] at lines
    rw [← lines]
    obtain ⟨output, shows⟩ := complete_of_ordered orderly rfl count follows drained
    refine ⟨output, fun key mine => ?_⟩
    have same := (lasts key mine).shown.trans (shows key mine).content
    exact same.trans ((shows key mine).fresh (lasts key mine)).shown.symm

-----------------------------------------------------------------------------------------
-- Two lines and two workers
-----------------------------------------------------------------------------------------

/-- A client stores a key and reads it back in one piece; each line is with a worker. -/
def storedAndRead : List Action :=
  [.accept 5 [], .recv 5 (some (ascii "SET k v\nGET k\n")), .readLine, .process, .readLine,
    .process, .readLine, .pop 0, .pop 1]

/-- The results are posted in the wrong order, and placed. -/
def postedAndPlaced : List Action := [.post 1, .post 0, .drain, .deliver, .deliver, .deliver]

theorem replies_in_program_order_stored
    : ∃ steps server connection,
        TransitionSystem.Run step (start 2 (.empty 1024 0) 0) steps server
        ∧ server.connections.lookup 5 = some connection
        ∧ connection.sent ++ connection.writeBuffer = okReply ++ bulkReply (ascii "v") := by
  have traced
      : TransitionSystem.trace step (start 2 (.empty 1024 0) 0)
          (storedAndRead ++ [.execute 0 1 .none, .execute 1 2 .none] ++ postedAndPlaced)
        = some _ := rfl
  have run := TransitionSystem.run_of_trace traced
  have whole := @whole_of_lines _ _ _ _ _ _ run 5 _ 0 rfl rfl rfl
  have replies := replies_in_program_order 2 (.empty 1024 0) 0 0 [ascii "k"] .nil le_rfl run
    (acceptsFree_of_handle (acceptsFreeHandle_of_first rfl rfl) 0) (by decide +kernel)
    (by decide +kernel) (by decide +kernel) (by decide +kernel) whole (by decide +kernel) 5 rfl rfl
  have replied := (replies.2 (by decide +kernel) rfl).1
  exact ⟨_, _, _, run, rfl, replied.trans rfl⟩

/-- The second worker is faster, and the key is read before it is stored. All else that is asked
of a run holds, and everything is answered, but with another reply.
-/
theorem replies_in_program_order_fails
    : ∃ steps server connection,
        TransitionSystem.Run step (start 2 (.empty 1024 0) 0) steps server
        ∧ server.connections.lookup 5 = some connection
        ∧ connection.id = 0
        ∧ TransitionSystem.Along (AcceptsFree 0) steps
        ∧ TransitionSystem.Along (Exclusive 0 [ascii "k"]) steps
        ∧ TransitionSystem.Along (NoneExpires [ascii "k"]) steps
        ∧ (∀ key ∈ [ascii "k"], Fresh server.clock (server.store.router.entry key))
        ∧ TransitionSystem.Along (fun server action => ¬ server.RunsOut 0 action) steps
        ∧ TransitionSystem.Along (fun server action => ¬ server.DropsLine 0 action) steps
        ∧ connection.received = ascii "SET k v\nGET k\n"
        ∧ connection.readBuffer = []
        ∧ (∀ ticket ∈ server.traffic.outstanding, ticket.origin ≠ 0)
        ∧ connection.sent ++ connection.writeBuffer = okReply ++ nullReply
        ∧ (LoggedStore.answerAll 0 (linesOf connection.received) (.empty 1024 0)).1.flatten
          = okReply ++ bulkReply (ascii "v") := by
  have traced
      : TransitionSystem.trace step (start 2 (.empty 1024 0) 0)
          (storedAndRead ++ [.execute 1 1 .none, .execute 0 2 .none] ++ postedAndPlaced)
        = some _ := rfl
  have run := TransitionSystem.run_of_trace traced
  have whole := @whole_of_lines _ _ _ _ _ _ run 5 _ 0 rfl rfl rfl
  exact ⟨_, _, _, run, rfl, rfl, acceptsFree_of_handle (acceptsFreeHandle_of_first rfl rfl) 0,
    by decide +kernel, by decide +kernel, by decide +kernel, by decide +kernel, whole, rfl, rfl,
    by decide +kernel, rfl, rfl⟩

end Server

end InMemoryDB
