import InMemoryDB.Core.Command

/-! The queues between the reactor and the workers. -/

namespace InMemoryDB

/-- A socket handle. -/
abbrev Socket := ℕ

/-- A unit of work. The source has its first three fields; `origin` is for proofs and tells
which connection issued the command.
-/
structure Task where
  command : ICommand
  clientFd : Socket
  sequenceId : ℕ
  origin : ℕ
  deriving DecidableEq

/-- A result for the reactor, with the same field for proofs. -/
structure TaskResult where
  clientFd : Socket
  sequenceId : ℕ
  response : Bytes
  origin : ℕ
  deriving DecidableEq

/-- The number of workers, the task queue and the completion queue. All results that were
ever pushed stay in `posted`, which is for proofs.
-/
structure WorkerPool where
  threadCount : ℕ
  maxQueueSize : ℕ := 10000
  running : Bool := true
  queue : List Task := []
  completionQueue : List TaskResult := []
  posted : List TaskResult := []

/-- The result that a worker makes of a task. -/
def Task.result (task : Task) (response : Bytes) : TaskResult :=
  ⟨task.clientFd, task.sequenceId, response, task.origin⟩

namespace WorkerPool

/-- `CompletionQueue::push` -/
def push (result : TaskResult) (pool : WorkerPool) : WorkerPool :=
  { pool with
    completionQueue := pool.completionQueue ++ [result]
    posted := pool.posted ++ [result] }

def submit (task : Task) (pool : WorkerPool) : Bool × WorkerPool :=
  if !pool.running || pool.queue.length ≥ pool.maxQueueSize then (false, pool)
  else (true, { pool with queue := pool.queue ++ [task] })

end WorkerPool

end InMemoryDB
