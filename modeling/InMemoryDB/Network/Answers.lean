import InMemoryDB.Core.Replies
import InMemoryDB.Network.Pipeline

/-! All answers that a client can get, from the commands and from the handlers that turn
requests away: one after the other they are a stream that can be taken apart again.
-/

namespace InMemoryDB

/-- The execution of a command, or a request that the pipeline turns away. -/
inductive Answer where
  | executed (command : ICommand) (refusals : Refusals) (now : Int) (router : ShardRouter)
    (aof : AofLogger)
  | rejected (allow : Bytes → Bool) (request : Request) (pool : WorkerPool)
    (away : request.Rejected allow pool)

namespace Answer

/-- The text that the client gets: what the command returns, or what the handlers put into the
completion queue.
-/
def text : Answer → Bytes
  | .executed command refusals now router aof =>
      (command.execute refusals now router aof).reply
  | .rejected allow request pool _ =>
      ((Pipeline.processWith allow request pool).completionQueue.drop
        pool.completionQueue.length).flatMap
        TaskResult.response

/-- The error of the first handler that turns a request away. -/
def rejection (allow : Bytes → Bool) (request : Request) : Resp.Reply :=
  .error
    (if allow request.clientIp = false then ascii "ERR rate limit exceeded"
    else if tokenize request.line = [] then ascii "ERR empty command"
    else if CommandFactory.parse (tokenize request.line) = none then
      ascii "ERR unknown command"
    else ascii "ERR server busy")

/-- What the client should read. Only a write whose arena refuses memory is answered with an
error in place of what it means.
-/
def Means : Answer → Resp.Reply → Prop
  | .executed command refusals now router _, reply =>
      reply = command.meant now (command.entryIn router)
      ∨ command.asksMemory = true ∧ (∃ point, refusals point = true) ∧ reply = oomError
  | .rejected allow request _ _, reply => reply = rejection allow request

/-- The handlers put one text into the completion queue, that of their error. -/
theorem text_rejected {allow : Bytes → Bool} {request : Request} {pool : WorkerPool}
    (away : request.Rejected allow pool)
    : text (.rejected allow request pool away) = Resp.encode (rejection allow request) := by
  have pushed {reply : Bytes}
      (turned : Pipeline.processWith allow request pool = request.reject reply pool)
      : text (.rejected allow request pool away) = reply := by
    simp [text, turned, Request.reject, WorkerPool.push]
  cases allowed : allow request.clientIp with
  | false =>
      rw [pushed (Pipeline.processWith_of_limited allowed pool)]
      simp only [rejection, allowed, if_true]
      decide +kernel
  | true =>
      simp only [rejection, allowed, Bool.true_eq_false, if_false]
      cases parsed : CommandFactory.parse (tokenize request.line) with
      | none =>
          rw [pushed (Pipeline.processWith_of_refused allowed parsed pool)]
          simp only [refusalOf, if_true]
          split <;> decide +kernel
      | some command =>
          have tokens : tokenize request.line ≠ [] := by
            intro none
            simp [none, CommandFactory.parse] at parsed
          have full : (!pool.running || pool.queue.length ≥ pool.maxQueueSize) = true := by
            simpa [Request.Rejected, allowed, parsed] using away
          have turned := Pipeline.processWith_of_parsed allowed parsed pool
          rw [if_pos full] at turned
          rw [pushed turned]
          simp only [tokens, if_false, reduceCtorEq]
          decide +kernel

theorem plain_rejection (allow : Bytes → Bool) (request : Request)
    : (rejection allow request).Plain := by
  change (13 : UInt8) ∉ _
  split_ifs <;> decide +kernel

/-- Every answer is the text of a reply that can be read back, and that means what it should. -/
theorem exists_means (answer : Answer)
    : ∃ reply : Resp.Reply,
        reply.Plain ∧ answer.text = Resp.encode reply ∧ answer.Means reply := by
  cases answer with
  | executed command refusals now router aof =>
      rcases command.reply_execute refusals now router aof with said | ⟨asks, refused, said⟩
      · exact ⟨_, command.plain_meant _ _, said, .inl rfl⟩
      · exact ⟨_, plain_oomError, said, .inr ⟨asks, refused, rfl⟩⟩
  | rejected allow request pool away =>
      exact ⟨_, plain_rejection allow request, text_rejected away, rfl⟩

/-- Any sequence of answers, whatever the stores and pools, keys and values are: their texts one
after the other are decoded to one reply for each, in their order and with nothing left over,
and each reply is the one that is meant.
-/
theorem answers_decode (answers : List Answer)
    : ∃ replies,
        Resp.decode (answers.flatMap text) = some replies
        ∧ List.Forall₂ Means answers replies := by
  have each
      : ∃ replies : List Resp.Reply,
          (∀ reply ∈ replies, reply.Plain)
          ∧ answers.flatMap text = replies.flatMap Resp.encode
          ∧ List.Forall₂ Means answers replies := by
    induction answers with
    | nil => exact ⟨[], by simp, rfl, .nil⟩
    | cons answer rest ih =>
        obtain ⟨replies, plain, texts, means⟩ := ih
        obtain ⟨reply, here, said, meaning⟩ := answer.exists_means
        refine ⟨reply :: replies, List.forall_mem_cons.mpr ⟨here, plain⟩, ?_,
          .cons meaning means⟩
        rw [List.flatMap_cons, List.flatMap_cons, said, texts]
  obtain ⟨replies, plain, texts, means⟩ := each
  exact ⟨replies, texts ▸ Resp.decode_flatMap plain, means⟩

end Answer

end InMemoryDB
