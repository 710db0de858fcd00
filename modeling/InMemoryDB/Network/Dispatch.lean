import InMemoryDB.Network.Server

/-! The pipeline in front of the worker pool, from the calls of `process` to the drained results
and through the shutdown of the pool: every request is answered once.
-/

namespace InMemoryDB

/-- The client and the sequence number that a response is addressed to. -/
abbrev Address := Socket × ℕ

def Request.address (request : Request) : Address := (request.client, request.seqId)

def Task.address (task : Task) : Address := (task.clientFd, task.sequenceId)

def TaskResult.address (result : TaskResult) : Address := (result.clientFd, result.sequenceId)

/-- A worker that has just taken its task has no response. -/
theorem BusyWorker.unanswered : (none : Option Bytes) ≠ some [] := nofun

def BusyWorker.address (busy : BusyWorker) : Address := busy.task.address

@[simp] theorem address_task (request : Request) (command : ICommand)
    : (request.task command).address = request.address := rfl

@[simp] theorem address_result (task : Task) (response : Bytes)
    : (task.result response).address = task.address := rfl

/-- How far `WorkerPool::shutdown` has come: not called, waiting for its workers, or back. -/
inductive PoolShutdown where
  | uncalled
  | joining
  | returned
  deriving DecidableEq

/-- The pool, its workers with their tasks, the workers that have left their loop, and the
results that the reactor has drained.
-/
structure Dispatch where
  pool : WorkerPool
  busy : List BusyWorker := []
  exited : Finset ℕ := ∅
  drained : List TaskResult := []
  shutdownCall : PoolShutdown := .uncalled

/-- A turn of the reactor, of a worker or of the thread that shuts the pool down. The limiter
may give any verdict, and `execute` may return any text but the empty one, which it never does.
-/
inductive DispatchAction where
  | process (request : Request) (allow : Bytes → Bool)
  | pop (worker : ℕ)
  | execute (worker : ℕ) (response : Bytes)
  | post (worker : ℕ)
  | drain
  | shutdown
  | exit (worker : ℕ)
  | join

namespace Dispatch

/-- A pool that has just been made. -/
def start (threadCount maxQueueSize : ℕ) : Dispatch :=
  { pool := { threadCount := threadCount, maxQueueSize := maxQueueSize } }

/-- The worker waits at the condition variable of the queue. -/
def waits (worker : ℕ) (dispatch : Dispatch) : Bool :=
  worker < dispatch.pool.threadCount
    && worker ∉ dispatch.exited
    && dispatch.busy.all fun busy => busy.worker ≠ worker

/-- One turn, if the thread can take it. A worker waits until there is a task or the pool is
stopped; it takes a task as long as there is one and leaves when there is none.
-/
def step (dispatch : Dispatch) : DispatchAction → Option Dispatch
  | .process request allow =>
      some { dispatch with pool := Pipeline.processWith allow request dispatch.pool }
  | .pop worker =>
      match dispatch.pool.queue with
      | [] => none
      | task :: rest =>
          if dispatch.waits worker then
            some
              { dispatch with
                pool := { dispatch.pool with queue := rest }
                busy :=
                  dispatch.busy
                    ++ [{ worker := worker, task := task, filled := BusyWorker.unanswered }] }
          else none
  | .execute worker response =>
      match Server.extract (fun busy => busy.worker = worker && busy.response.isNone)
          dispatch.busy with
      | none => none
      | some (front, busy, back) =>
          if filled : response ≠ [] then
            some
              { dispatch with
                busy :=
                  front
                    ++ { busy with response := some response, filled := by simpa using filled }
                      :: back }
          else none
  | .post worker =>
      match Server.extract (fun busy => busy.worker = worker && busy.response.isSome)
          dispatch.busy with
      | none => none
      | some (front, busy, back) =>
          busy.response.map fun response =>
            { dispatch with
              busy := front ++ back
              pool := dispatch.pool.push (busy.task.result response) }
  | .drain =>
      some
        { dispatch with
          pool := { dispatch.pool with completionQueue := [] }
          drained := dispatch.drained ++ dispatch.pool.completionQueue }
  | .shutdown =>
      if dispatch.pool.running then
        some
          { dispatch with
            pool := { dispatch.pool with running := false }
            shutdownCall := .joining }
      else some dispatch
  | .exit worker =>
      if dispatch.waits worker ∧ dispatch.pool.running = false ∧ dispatch.pool.queue = [] then
        some { dispatch with exited := insert worker dispatch.exited }
      else none
  | .join =>
      if dispatch.shutdownCall = .joining
          ∧ ∀ worker < dispatch.pool.threadCount, worker ∈ dispatch.exited then
        some { dispatch with shutdownCall := .returned }
      else none

/-- All that a turn can do. -/
inductive Takes (dispatch : Dispatch) : DispatchAction → Dispatch → Prop
  | rejected {request allow} (text : Bytes)
    (rejected : request.Rejected allow dispatch.pool)
    : Takes dispatch (.process request allow)
        { dispatch with pool := request.reject text dispatch.pool }
  | queued {request allow} (command : ICommand)
    (passed : ¬ request.Rejected allow dispatch.pool)
    : Takes dispatch (.process request allow)
        { dispatch with
          pool :=
            { dispatch.pool with queue := dispatch.pool.queue ++ [request.task command] } }
  | pop {worker task rest} (first : dispatch.pool.queue = task :: rest)
    (waits : dispatch.waits worker = true)
    : Takes dispatch (.pop worker)
        { dispatch with
          pool := { dispatch.pool with queue := rest }
          busy := dispatch.busy ++ [{ worker := worker, task := task }] }
  | execute {worker response front busy back} (holds : dispatch.busy = front ++ busy :: back)
    (filled : response ≠ [])
    : Takes dispatch (.execute worker response)
        { dispatch with
          busy :=
            front
              ++ { busy with response := some response, filled := by simpa using filled }
                :: back }
  | post {worker front busy back} (response : Bytes)
    (holds : dispatch.busy = front ++ busy :: back) (own : busy.worker = worker)
    : Takes dispatch (.post worker)
        { dispatch with
          busy := front ++ back
          pool := dispatch.pool.push (busy.task.result response) }
  | drain
    : Takes dispatch .drain
        { dispatch with
          pool := { dispatch.pool with completionQueue := [] }
          drained := dispatch.drained ++ dispatch.pool.completionQueue }
  | shutdown
    : Takes dispatch .shutdown
        { dispatch with
          pool := { dispatch.pool with running := false }
          shutdownCall := .joining }
  | again : Takes dispatch .shutdown dispatch
  | exit {worker} (waits : dispatch.waits worker = true)
    (stopped : dispatch.pool.running = false) (empty : dispatch.pool.queue = [])
    : Takes dispatch (.exit worker)
        { dispatch with exited := insert worker dispatch.exited }
  | join (left : ∀ worker < dispatch.pool.threadCount, worker ∈ dispatch.exited)
    : Takes dispatch .join { dispatch with shutdownCall := .returned }

/-- A step is one of these, by cases on the action. -/
theorem takes_of_step {dispatch next : Dispatch} {action : DispatchAction}
    (taken : dispatch.step action = some next)
    : dispatch.Takes action next := by
  cases action with
  | process request allow =>
      obtain rfl := Option.some.inj taken
      rcases Pipeline.processWith_cases allow request dispatch.pool with
        ⟨rejected, text, -, same⟩ | ⟨passed, command, same⟩
      · rw [same]
        exact .rejected text rejected
      · rw [same]
        exact .queued command passed
  | pop worker =>
      simp only [step] at taken
      split at taken
      · cases taken
      · rename_i task rest first
        split at taken
        · rename_i waits
          obtain rfl := Option.some.inj taken
          exact .pop first waits
        · cases taken
  | execute worker response =>
      simp only [step] at taken
      split at taken
      · cases taken
      · rename_i front busy back cut
        split at taken
        · rename_i filled
          obtain rfl := Option.some.inj taken
          exact .execute (Server.extract_eq_some cut).1 filled
        · cases taken
  | post worker =>
      simp only [step] at taken
      split at taken
      · cases taken
      · rename_i front busy back cut
        obtain ⟨response, -, rfl⟩ := Option.map_eq_some_iff.mp taken
        have holds := Server.extract_eq_some cut
        exact .post response holds.1 (by simpa using (Bool.and_eq_true_iff.mp holds.2).1)
  | drain =>
      obtain rfl := Option.some.inj taken
      exact .drain
  | shutdown =>
      simp only [step] at taken
      split at taken
      · obtain rfl := Option.some.inj taken
        exact .shutdown
      · obtain rfl := Option.some.inj taken
        exact .again
  | exit worker =>
      simp only [step] at taken
      split at taken
      · rename_i guards
        obtain rfl := Option.some.inj taken
        exact .exit guards.1 guards.2.1 guards.2.2
      · cases taken
  | join =>
      simp only [step] at taken
      split at taken
      · rename_i guards
        obtain rfl := Option.some.inj taken
        exact .join guards.2
      · cases taken

-----------------------------------------------------------------------------------------
-- Where the requests are
-----------------------------------------------------------------------------------------

/-- The addresses of the results, drained or not. -/
def answered (dispatch : Dispatch) : List Address :=
  dispatch.pool.completionQueue.map TaskResult.address
    ++ dispatch.drained.map TaskResult.address

/-- The addresses of the tasks in the queue and with the workers. -/
def underWay (dispatch : Dispatch) : List Address :=
  dispatch.pool.queue.map Task.address ++ dispatch.busy.map BusyWorker.address

/-- The addresses in all four places. -/
def places (dispatch : Dispatch) : List Address := dispatch.underWay ++ dispatch.answered

/-- The addresses of the requests that `process` was called with. -/
def processed (steps : List (Dispatch × DispatchAction)) : List Address :=
  steps.filterMap fun entry =>
    match entry.2 with
    | .process request _ => some request.address
    | _ => none

theorem processed_append (front back : List (Dispatch × DispatchAction))
    : processed (front ++ back) = processed front ++ processed back :=
  List.filterMap_append

variable {dispatch next : Dispatch} {action : DispatchAction}

/-- A call of `process` puts its address in one place; every other turn only moves addresses
from one place to another. By cases on the turn.
-/
theorem Takes.places (takes : dispatch.Takes action next)
    : next.places.Perm (dispatch.places ++ processed [(dispatch, action)]) := by
  refine List.perm_iff_count.mpr fun address => ?_
  cases takes with
  | @rejected request allow text =>
      have given : processed [(dispatch, .process request allow)] = [request.address] := rfl
      have pushed : TaskResult.address ⟨request.client, request.seqId, text, request.origin⟩
          = request.address := rfl
      simp only [given, Dispatch.places, underWay, answered, Request.reject, WorkerPool.push,
        List.map_append, List.map_cons, List.map_nil, pushed, List.count_append]
      omega
  | @queued request allow command =>
      have given : processed [(dispatch, .process request allow)] = [request.address] := rfl
      simp only [given, Dispatch.places, underWay, answered, List.map_append, List.map_cons,
        List.map_nil, address_task, List.count_append]
      omega
  | @pop worker task rest first =>
      have same : BusyWorker.address { worker := worker, task := task } = task.address := rfl
      have nothing : processed [(dispatch, .pop worker)] = [] := rfl
      rw [nothing]
      simp only [Dispatch.places, underWay, answered, first, List.map_append,
        List.map_cons, List.map_nil, same, List.count_append, List.count_cons, List.count_nil]
      omega
  | @execute worker response front busy back holds filled =>
      have same : BusyWorker.address
            { busy with response := some response, filled := by simpa using filled }
          = busy.address := rfl
      have nothing : processed [(dispatch, .execute worker response)] = [] := rfl
      rw [nothing]
      simp only [Dispatch.places, underWay, answered, holds, List.map_append, List.map_cons, same,
        List.count_append, List.count_cons, List.count_nil]
      omega
  | @post worker front busy back response holds =>
      have same : busy.task.address = busy.address := rfl
      have nothing : processed [(dispatch, .post worker)] = [] := rfl
      rw [nothing]
      simp only [Dispatch.places, underWay, answered, holds, WorkerPool.push, List.map_append,
        List.map_cons, List.map_nil, address_result, same, List.count_append, List.count_cons,
        List.count_nil]
      omega
  | drain =>
      have nothing : processed [(dispatch, .drain)] = [] := rfl
      rw [nothing]
      simp only [Dispatch.places, underWay, answered, List.map_append, List.map_nil,
        List.count_append, List.count_nil]
      omega
  | shutdown | again | exit | join => exact congrArg _ (List.append_nil _).symm

/-- An answer stays one. -/
theorem Takes.answered (takes : dispatch.Takes action next) {address : Address}
    (given : address ∈ dispatch.answered)
    : address ∈ next.answered := by
  cases takes with
  | rejected | post =>
      simp only [Dispatch.answered, Request.reject, WorkerPool.push, List.map_append,
        List.mem_append] at given ⊢
      exact given.imp_left .inl
  | drain =>
      simp only [Dispatch.answered, List.map_append, List.map_nil, List.nil_append,
        List.mem_append] at given ⊢
      exact given.symm
  | queued | pop | execute | shutdown | again | exit | join => exact given

/-- A worker keeps its task until it posts the result. -/
theorem Takes.worker (takes : dispatch.Takes action next) {worker : ℕ}
    (keeps : action ≠ .post worker) (holds : ∃ busy ∈ dispatch.busy, busy.worker = worker)
    : ∃ busy ∈ next.busy, busy.worker = worker := by
  obtain ⟨mine, member, own⟩ := holds
  cases takes with
  | pop => exact ⟨mine, List.mem_append_left _ member, own⟩
  | @execute other response front busy back holds =>
      rw [holds] at member
      rcases List.mem_append.mp member with before | behind
      · exact ⟨mine, List.mem_append_left _ before, own⟩
      · rcases List.mem_cons.mp behind with rfl | behind
        · exact ⟨_, List.mem_append_right _ List.mem_cons_self, own⟩
        · exact ⟨mine, List.mem_append_right _ (List.mem_cons_of_mem _ behind), own⟩
  | @post other front busy back response holds posts =>
      rw [holds] at member
      refine ⟨mine, ?_, own⟩
      rcases List.mem_append.mp member with before | behind
      · exact List.mem_append_left _ before
      · rcases List.mem_cons.mp behind with rfl | behind
        · exact absurd (congrArg _ (posts.symm.trans own)) keeps
        · exact List.mem_append_right _ behind
  | rejected | queued | drain | shutdown | again | exit | join => exact ⟨mine, member, own⟩

/-- When `shutdown` has returned, it has returned for good, unless it is called again. -/
theorem Takes.returned (takes : dispatch.Takes action next)
    (once : action = .shutdown → dispatch.shutdownCall ≠ .returned)
    (returned : dispatch.shutdownCall = .returned)
    : next.shutdownCall = .returned := by
  cases takes with
  | shutdown => exact absurd returned (once (by rfl))
  | join => rfl
  | rejected | queued | pop | execute | post | drain | again | exit => exact returned

/-- A request that is turned away is answered at once. -/
theorem answered_of_rejected {request : Request} {allow : Bytes → Bool}
    (rejected : request.Rejected allow dispatch.pool)
    (taken : dispatch.step (.process request allow) = some next)
    : request.address ∈ next.answered := by
  cases takes_of_step taken with
  | rejected text =>
      simp only [Dispatch.answered, Request.reject, WorkerPool.push, List.map_append,
        List.mem_append]
      exact .inl (.inr (by simp [Request.address, TaskResult.address]))
  | queued command passed => exact absurd rejected passed

-----------------------------------------------------------------------------------------
-- Where the threads are
-----------------------------------------------------------------------------------------

/-- The queue keeps its bound, workers leave for good and only when the pool is stopped and the
queue is empty, and `shutdown` returns when all have left.
-/
structure Sound (threads capacity : ℕ) (dispatch : Dispatch) : Prop where
  threadCount : dispatch.pool.threadCount = threads
  maxQueueSize : dispatch.pool.maxQueueSize = capacity
  bounded : dispatch.pool.queue.length ≤ capacity
  workers : ∀ busy ∈ dispatch.busy, busy.worker < threads ∧ busy.worker ∉ dispatch.exited
  exited
    : ∀ worker ∈ dispatch.exited, dispatch.pool.running = false ∧ dispatch.pool.queue = []
  returned : dispatch.shutdownCall = .returned → ∀ worker < threads, worker ∈ dispatch.exited

variable {threads capacity : ℕ}

theorem sound_start (threads capacity : ℕ)
    : (start threads capacity).Sound threads capacity := by
  constructor <;> simp [start]

/-- What it means to wait. -/
theorem waits_iff {worker : ℕ}
    : dispatch.waits worker = true
      ↔ worker < dispatch.pool.threadCount
        ∧ worker ∉ dispatch.exited
        ∧ ∀ busy ∈ dispatch.busy, busy.worker ≠ worker := by
  simp [waits, and_assoc]

namespace Sound

/-- Every turn keeps this, by cases on the turn. -/
theorem step (sound : dispatch.Sound threads capacity) (takes : dispatch.Takes action next)
    : next.Sound threads capacity := by
  cases takes with
  | rejected text => exact { sound with }
  | queued command passed =>
      simp only [Request.Rejected, not_or, not_le] at passed
      obtain ⟨-, -, runs, room⟩ := passed
      refine { sound with bounded := ?_, exited := ?_ }
      · rw [sound.maxQueueSize] at room
        simpa using room
      · intro worker gone
        exact absurd (sound.exited worker gone).1 runs
  | @pop worker task rest first waits =>
      obtain ⟨among, stays, -⟩ := waits_iff.mp waits
      refine { sound with bounded := ?_, workers := ?_, exited := ?_ }
      · have bounded := sound.bounded
        rw [first, List.length_cons] at bounded
        exact Nat.le_of_succ_le bounded
      · refine List.forall_mem_append.mpr ⟨sound.workers, List.forall_mem_singleton.mpr ?_⟩
        exact ⟨sound.threadCount ▸ among, stays⟩
      · intro other gone
        have empty := (sound.exited other gone).2
        rw [first] at empty
        cases empty
  | @execute worker response front busy back holds =>
      refine { sound with workers := ?_ }
      have workers := sound.workers
      rw [holds] at workers
      obtain ⟨before, mine, behind⟩ := List.forall_mem_append.mp workers |>.imp_right
        List.forall_mem_cons.mp
      exact List.forall_mem_append.mpr ⟨before, List.forall_mem_cons.mpr ⟨mine, behind⟩⟩
  | @post worker front busy back response holds =>
      refine { sound with workers := ?_ }
      have workers := sound.workers
      rw [holds] at workers
      obtain ⟨before, -, behind⟩ := List.forall_mem_append.mp workers |>.imp_right
        List.forall_mem_cons.mp
      exact List.forall_mem_append.mpr ⟨before, behind⟩
  | drain => exact { sound with }
  | shutdown =>
      refine { sound with exited := ?_, returned := by simp }
      exact fun worker gone => ⟨rfl, (sound.exited worker gone).2⟩
  | again => exact sound
  | @exit worker waits stopped empty =>
      obtain ⟨-, -, free⟩ := waits_iff.mp waits
      refine { sound with workers := ?_, exited := fun _ _ => ⟨stopped, empty⟩, returned := ?_ }
      · intro busy member
        refine ⟨(sound.workers busy member).1, ?_⟩
        rw [Finset.mem_insert, not_or]
        exact ⟨free busy member, (sound.workers busy member).2⟩
      · exact fun back other below => Finset.mem_insert_of_mem (sound.returned back other below)
  | join left => exact { sound with returned := fun _ => sound.threadCount ▸ left }

/-- When `shutdown` has returned, no worker has a task any more. -/
theorem idle (sound : dispatch.Sound threads capacity)
    (returned : dispatch.shutdownCall = .returned)
    : dispatch.busy = [] := by
  refine List.eq_nil_iff_forall_not_mem.mpr fun busy member => ?_
  obtain ⟨below, stays⟩ := sound.workers busy member
  exact stays (sound.returned returned _ below)

/-- And with at least one worker nothing is left in the queue. -/
theorem empty (sound : dispatch.Sound threads capacity)
    (returned : dispatch.shutdownCall = .returned) (some : 0 < threads)
    : dispatch.pool.queue = [] :=
  (sound.exited 0 (sound.returned returned 0 some)).2

end Sound

-----------------------------------------------------------------------------------------
-- Whole runs
-----------------------------------------------------------------------------------------

theorem sound_of_run {steps : List (Dispatch × DispatchAction)}
    (run : TransitionSystem.Run step (start threads capacity) steps dispatch)
    : dispatch.Sound threads capacity := by
  induction run with
  | nil => exact sound_start threads capacity
  | snoc _ taken ih => exact ih.step (takes_of_step taken)

/-- The places hold the addresses of all calls of `process`, by induction on the run. -/
theorem places_of_run {steps : List (Dispatch × DispatchAction)}
    (run : TransitionSystem.Run step (start threads capacity) steps dispatch)
    : dispatch.places.Perm (processed steps) := by
  induction run with
  | nil => exact .refl []
  | snoc _ taken ih =>
      rw [processed_append]
      exact (takes_of_step taken).places.trans (ih.append_right _)

/-- Answers stay answers over a run, by induction on the run. -/
theorem answered_of_run {steps : List (Dispatch × DispatchAction)}
    (run : TransitionSystem.Run step dispatch steps next) {address : Address}
    (given : address ∈ dispatch.answered)
    : address ∈ next.answered := by
  induction run with
  | nil => exact given
  | snoc _ taken ih => exact (takes_of_step taken).answered ih

/-- As long as the calls of `process` have different addresses: each address that was processed
is in exactly one place and no other is anywhere, the queue keeps its bound, a request that is
turned away is never in the queue nor with a worker, and after the shutdown each address has
exactly one drained result as soon as the queues are empty.
-/
theorem answered_once (threads capacity : ℕ) {steps : List (Dispatch × DispatchAction)}
    {dispatch : Dispatch}
    (run : TransitionSystem.Run step (start threads capacity) steps dispatch)
    (distinct : (processed steps).Nodup)
    : (∀ address,
          dispatch.places.count address = if address ∈ processed steps then 1 else 0)
      ∧ dispatch.pool.queue.length ≤ capacity
      ∧ (∀ before request allow,
          (before, .process request allow) ∈ steps
          → request.Rejected allow before.pool
          → request.address ∉ dispatch.underWay)
      ∧ (dispatch.shutdownCall = .returned
        → dispatch.busy = []
          ∧ (0 < threads → dispatch.pool.queue = [])
          ∧ (dispatch.pool.queue = []
            → dispatch.pool.completionQueue = []
            → ∀ address,
                (dispatch.drained.map TaskResult.address).count address
                  = if address ∈ processed steps then 1 else 0)) := by
  have sound := sound_of_run run
  have places := places_of_run run
  have once (address : Address)
      : dispatch.places.count address = if address ∈ processed steps then 1 else 0 := by
    rw [places.count_eq]
    split
    · rename_i member
      exact List.count_eq_one_of_mem distinct member
    · rename_i absent
      exact List.count_eq_zero_of_not_mem absent
  refine ⟨once, sound.bounded, ?_, ?_⟩
  · intro before request allow member rejected underWay
    obtain ⟨front, back, next, -, -, taken, later⟩ := run.split member
    have given := answered_of_run later (answered_of_rejected rejected taken)
    have twice : 2 ≤ dispatch.places.count request.address := by
      rw [Dispatch.places, List.count_append]
      exact Nat.add_le_add (List.count_pos_iff.mpr underWay) (List.count_pos_iff.mpr given)
    rw [once] at twice
    split at twice <;> omega
  · intro returned
    refine ⟨sound.idle returned, sound.empty returned, fun empty drained address => ?_⟩
    have all := once address
    simpa [Dispatch.places, underWay, Dispatch.answered, sound.idle returned, empty, drained]
      using all

/-- One request is queued and worked off during the shutdown, one has no command, one finds the
queue full, and one comes too late.
-/
theorem answered_once_four
    : ∃ steps dispatch,
        TransitionSystem.Run step (start 1 1) steps dispatch
        ∧ processed steps = [(5, 0), (5, 1), (6, 0), (6, 1)]
        ∧ dispatch.shutdownCall = .returned
        ∧ ∀ address,
            (dispatch.drained.map TaskResult.address).count address
              = if address ∈ processed steps then 1 else 0 := by
  have traced
      : TransitionSystem.trace step (start 1 1)
          [.process ⟨5, ascii "PING", 0, ascii "10.0.0.1", 0⟩ fun _ => true,
            .process ⟨5, ascii "a", 1, ascii "10.0.0.1", 0⟩ fun _ => true,
            .process ⟨6, ascii "PING", 0, ascii "10.0.0.2", 1⟩ fun _ => true,
            .drain, .shutdown, .pop 0,
            .process ⟨6, ascii "PING", 1, ascii "10.0.0.2", 1⟩ fun _ => true,
            .execute 0 pongReply, .post 0, .exit 0, .join, .drain]
        = some _ := rfl
  have run := TransitionSystem.run_of_trace traced
  exact ⟨_, _, run, rfl, rfl, ((answered_once 1 1 run (by decide)).2.2.2 rfl).2.2 rfl rfl⟩

end Dispatch

end InMemoryDB
