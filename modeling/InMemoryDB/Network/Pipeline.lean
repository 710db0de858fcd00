import InMemoryDB.Core.CommandFactory
import InMemoryDB.Core.WorkerPool

/-! The chain of handlers between the reactor and the task queue. -/

namespace InMemoryDB

/-- The arguments of `Pipeline::process`, and for proofs the connection they come from. -/
structure Request where
  client : Socket
  line : Bytes
  seqId : ℕ
  clientIp : Bytes
  origin : ℕ

/-- What the handlers pass along; the pool they all refer to is threaded through them. -/
structure PipelineContext extends Request where
  tokens : List Bytes := []
  command : Option ICommand := none

/-- A handler together with the handlers behind it. -/
abbrev PipelineHandler := PipelineContext → WorkerPool → WorkerPool

/-- The limiter lets everyone pass; it returns before it looks at a bucket. -/
def RateLimiter.allow (_ip : Bytes) : Bool := true

/-- A request that a handler answers itself, past the workers. -/
def Request.reject (text : Bytes) (request : Request) (pool : WorkerPool) : WorkerPool :=
  pool.push ⟨request.client, request.seqId, text, request.origin⟩

def rateLimitReply : Bytes := ascii "-ERR rate limit exceeded" ++ crlf

def emptyCommandReply : Bytes := ascii "-ERR empty command" ++ crlf

def unknownCommandReply : Bytes := ascii "-ERR unknown command" ++ crlf

def serverBusyReply : Bytes := ascii "-ERR server busy" ++ crlf

def RateLimitHandler.handle (allow : Bytes → Bool) (next : PipelineHandler)
    : PipelineHandler :=
  fun context pool =>
    if !allow context.clientIp then context.reject rateLimitReply pool else next context pool

def TokenizeHandler.handle (next : PipelineHandler) : PipelineHandler := fun context pool =>
  let context := { context with tokens := context.tokens ++ tokenize context.line }
  if context.tokens = [] then context.reject emptyCommandReply pool else next context pool

def CommandParseHandler.handle (next : PipelineHandler) : PipelineHandler :=
  fun context pool =>
    match CommandFactory.parse context.tokens with
    | none => context.reject unknownCommandReply pool
    | some command => next { context with command := some command } pool

/-- The chain only gets here with a command. -/
def DispatchHandler.handle : PipelineHandler := fun context pool =>
  match context.command with
  | none => pool
  | some command =>
      let (accepted, pool) :=
        pool.submit ⟨command, context.client, context.seqId, context.origin⟩
      if accepted then pool else context.reject serverBusyReply pool

/-- The chain behind a limiter with any verdicts. -/
def Pipeline.processWith (allow : Bytes → Bool) (request : Request) (pool : WorkerPool)
    : WorkerPool :=
  RateLimitHandler.handle allow
    (TokenizeHandler.handle (CommandParseHandler.handle DispatchHandler.handle))
    { toRequest := request } pool

def Pipeline.process (request : Request) (pool : WorkerPool) : WorkerPool :=
  Pipeline.processWith RateLimiter.allow request pool

/-- The answer to a line that makes no command. -/
def refusalOf (line : Bytes) : Bytes :=
  if tokenize line = [] then emptyCommandReply else unknownCommandReply

/-- The task that a command of a request becomes. -/
def Request.task (request : Request) (command : ICommand) : Task :=
  ⟨command, request.client, request.seqId, request.origin⟩

/-- The limiter, the parser or the pool turns the request away. A line without tokens makes no
command either.
-/
def Request.Rejected (allow : Bytes → Bool) (request : Request) (pool : WorkerPool) : Prop :=
  allow request.clientIp = false
  ∨ CommandFactory.parse (tokenize request.line) = none
  ∨ pool.running = false
  ∨ pool.queue.length ≥ pool.maxQueueSize

namespace Pipeline

variable {allow : Bytes → Bool} {request : Request}

/-- A request over the limit is answered at once. -/
theorem processWith_of_limited (limited : allow request.clientIp = false) (pool : WorkerPool)
    : processWith allow request pool = request.reject rateLimitReply pool := by
  simp only [processWith, RateLimitHandler.handle, limited, Bool.not_false, if_true]

/-- A line that makes no command is answered at once. -/
theorem processWith_of_refused (allowed : allow request.clientIp = true)
    (refused : CommandFactory.parse (tokenize request.line) = none) (pool : WorkerPool)
    : processWith allow request pool = request.reject (refusalOf request.line) pool := by
  simp only [processWith, RateLimitHandler.handle, allowed, Bool.not_true,
    Bool.false_eq_true, if_false, TokenizeHandler.handle, List.nil_append, refusalOf]
  split
  · rfl
  · simp only [CommandParseHandler.handle, refused]

/-- A command goes to the queue, as long as the pool runs and has room. -/
theorem processWith_of_parsed (allowed : allow request.clientIp = true) {command : ICommand}
    (parsed : CommandFactory.parse (tokenize request.line) = some command) (pool : WorkerPool)
    : processWith allow request pool
      = if !pool.running || pool.queue.length ≥ pool.maxQueueSize then
          request.reject serverBusyReply pool
        else { pool with queue := pool.queue ++ [request.task command] } := by
  have someToken : tokenize request.line ≠ [] := by
    intro none
    simp [none, CommandFactory.parse] at parsed
  simp only [processWith, RateLimitHandler.handle, allowed, Bool.not_true,
    Bool.false_eq_true, if_false, TokenizeHandler.handle, List.nil_append, someToken,
    CommandParseHandler.handle, parsed, DispatchHandler.handle, WorkerPool.submit]
  split <;> rfl

/-- A request that is turned away is answered at once with some text; the command of any other
is put into the queue.
-/
theorem processWith_cases (allow : Bytes → Bool) (request : Request) (pool : WorkerPool)
    : (request.Rejected allow pool
        ∧ ∃ text, text ≠ [] ∧ processWith allow request pool = request.reject text pool)
      ∨ (¬ request.Rejected allow pool
        ∧ ∃ command,
            processWith allow request pool
            = { pool with queue := pool.queue ++ [request.task command] }) := by
  unfold Request.Rejected
  cases allowed : allow request.clientIp with
  | false =>
      exact .inl ⟨.inl rfl, rateLimitReply, by decide, processWith_of_limited allowed pool⟩
  | true =>
      cases parsed : CommandFactory.parse (tokenize request.line) with
      | none =>
          refine .inl ⟨.inr (.inl rfl), _, ?_, processWith_of_refused allowed parsed pool⟩
          unfold refusalOf
          split <;> decide
      | some command =>
          rw [processWith_of_parsed allowed parsed]
          split
          · rename_i full
            refine .inl ⟨.inr (.inr ?_), _, by decide, rfl⟩
            simpa using full
          · rename_i room
            refine .inr ⟨?_, command, rfl⟩
            simpa using room

theorem process_of_refused
    (refused : CommandFactory.parse (tokenize request.line) = none) (pool : WorkerPool)
    : process request pool = request.reject (refusalOf request.line) pool :=
  processWith_of_refused rfl refused pool

/-- A request is either answered at once with some text, or its command is put into the
queue.
-/
theorem process_cases (request : Request) (pool : WorkerPool)
    : (∃ text, text ≠ [] ∧ process request pool = request.reject text pool)
      ∨ ∃ command,
          process request pool
          = { pool with queue := pool.queue ++ [request.task command] } := by
  rcases processWith_cases RateLimiter.allow request pool with ⟨-, refused⟩ | ⟨-, queued⟩
  · exact .inl refused
  · exact .inr queued

end Pipeline

end InMemoryDB
