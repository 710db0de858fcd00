import InMemoryDB.Network.RoundLength

/-! What a connection has to send leaves it: in every round of the main loop a client that takes
what it is offered gets some of it, whatever else there is to do.
-/

namespace InMemoryDB

namespace Connection

-----------------------------------------------------------------------------------------
-- The output of one connection
-----------------------------------------------------------------------------------------

/-- Whether there is something to write is known to the poll set. -/
def Announces (connection : Connection) : Prop :=
  connection.writeBuffer ≠ [] → connection.writePending = true

/-- Some of the output has been sent meanwhile, and more of it may have come behind the rest. -/
structure Follows (earlier later : Connection) : Prop where
  id : later.id = earlier.id
  sent : earlier.sent <+: later.sent
  output : earlier.sent ++ earlier.writeBuffer <+: later.sent ++ later.writeBuffer

/-- What a turn may do to a connection. -/
structure Continues (before after : Connection) : Prop extends Follows before after where
  announces : before.Announces → after.Announces

variable {earlier before after later : Connection}

theorem Follows.refl (connection : Connection) : connection.Follows connection :=
  ⟨rfl, List.prefix_rfl, List.prefix_rfl⟩

theorem Follows.trans (first : earlier.Follows before) (second : before.Follows later)
    : earlier.Follows later :=
  ⟨second.id.trans first.id, first.sent.trans second.sent, first.output.trans second.output⟩

/-- What has been sent of the output, when all of it has or when nothing is left. -/
theorem Follows.sent_of_empty (follows : earlier.Follows later) (empty : later.writeBuffer = [])
    : earlier.sent.length + earlier.writeBuffer.length ≤ later.sent.length := by
  have output := follows.output.length_le
  rwa [empty, List.append_nil, List.length_append] at output

theorem continues_of_same (id : after.id = before.id) (sent : after.sent = before.sent)
    (writeBuffer : after.writeBuffer = before.writeBuffer)
    (writePending : after.writePending = before.writePending)
    : before.Continues after := by
  refine ⟨⟨id, ?_, ?_⟩, ?_⟩
  · rw [sent]
  · rw [sent, writeBuffer]
  · intro announces
    rw [Announces, writeBuffer, writePending]
    exact announces

theorem Continues.refl (connection : Connection) : connection.Continues connection :=
  continues_of_same rfl rfl rfl rfl

/-- The flush only adds to the write buffer, by induction on the fuel. -/
theorem output_flush (fuel : ℕ) (state : ConnectionState)
    : state.writeBuffer <+: (state.flush fuel).writeBuffer
      ∧ ((state.writeBuffer ≠ [] → state.writePending = true)
        → (state.flush fuel).writeBuffer ≠ []
        → (state.flush fuel).writePending = true) := by
  induction fuel generalizing state with
  | zero => exact ⟨List.prefix_rfl, fun announces => announces⟩
  | succ fuel ih =>
      unfold ConnectionState.flush
      split
      · exact ⟨List.prefix_rfl, fun announces => announces⟩
      · obtain ⟨longer, announces⟩ := ih _
        exact ⟨(List.prefix_append _ _).trans longer, fun _ => announces fun _ => rfl⟩

theorem continues_place (connection : Connection) (result : TaskResult)
    : connection.Continues
        { connection with
          toConnectionState := connection.toConnectionState.place result
          placed := connection.placed ++ [result.origin] } := by
  obtain ⟨longer, announces⟩ :=
    output_flush (connection.outOfOrderBuf.insert result.sequenceId result.response).keys.card
      { connection.toConnectionState with
        outOfOrderBuf := connection.outOfOrderBuf.insert result.sequenceId result.response }
  exact ⟨⟨rfl, List.prefix_rfl, (List.prefix_append_right_inj _).mpr longer⟩, announces⟩

theorem continues_written (connection : Connection) (count : ℕ)
    : connection.Continues
        { connection with
          toConnectionState := connection.toConnectionState.written count
          sent := connection.sent ++ connection.writeBuffer.take count } := by
  refine ⟨⟨rfl, List.prefix_append _ _, ?_⟩, ?_⟩
  · by_cases empty : connection.writeBuffer = []
    · simp [ConnectionState.written, empty]
    · simp [ConnectionState.written, empty]
  · intro announces
    by_cases empty : connection.writeBuffer = []
    · simp [Announces, ConnectionState.written, empty]
    · intro rest
      simp only [ConnectionState.written, empty, if_false] at rest ⊢
      rw [if_neg rest]
      exact announces empty

/-- What `send` takes is sent. -/
theorem sent_written (connection : Connection) {count : ℕ} (some : 0 < count)
    (filled : connection.writeBuffer ≠ [])
    : connection.sent.length < (connection.sent ++ connection.writeBuffer.take count).length := by
  have positive := List.length_pos_of_ne_nil filled
  rw [List.length_append, List.length_take]
  omega

end Connection

namespace Server

variable {server next : Server} {client : Socket} {connection changed : Connection}

-----------------------------------------------------------------------------------------
-- All connections
-----------------------------------------------------------------------------------------

/-- Every connection was there before and continues, or is a new one. -/
structure Continues (server next : Server) : Prop where
  accepted : server.accepted ≤ next.accepted
  each
    : ∀ client after,
        next.connections.lookup client = some after
        → (after.id = server.accepted ∧ server.accepted < next.accepted ∧ after.Announces)
          ∨ ∃ before,
              server.connections.lookup client = some before ∧ before.Continues after

theorem continues_of_same (connections : next.connections = server.connections)
    (accepted : server.accepted ≤ next.accepted)
    : server.Continues next := by
  refine ⟨accepted, fun client after there => .inr ⟨after, ?_, .refl after⟩⟩
  rwa [← connections]

theorem continues_insert (found : server.connections.lookup client = some connection)
    (moved : next.connections = server.connections.insert client changed)
    (accepted : server.accepted ≤ next.accepted) (own : connection.Continues changed)
    : server.Continues next := by
  refine ⟨accepted, fun other after there => ?_⟩
  rw [moved] at there
  rcases lookup_insert_cases there with ⟨rfl, rfl⟩ | ⟨-, known⟩
  · exact .inr ⟨connection, found, own⟩
  · exact .inr ⟨after, known, .refl after⟩

theorem continues_disconnect (server : Server) (client : Socket)
    : server.Continues (server.disconnect client) := by
  refine ⟨le_rfl, fun other after there => .inr ⟨after, ?_, .refl after⟩⟩
  exact lookup_of_lookup_erase there

theorem continues_acceptConnection (server : Server) (client : Socket) (ip : Bytes)
    : server.Continues (server.acceptConnection client ip) := by
  unfold acceptConnection
  split
  · exact continues_of_same rfl le_rfl
  · refine ⟨Nat.le_succ _, fun other after there => ?_⟩
    rcases lookup_insert_cases there with ⟨rfl, rfl⟩ | ⟨-, known⟩
    · exact .inl ⟨rfl, Nat.lt_succ_self _, fun filled => absurd rfl filled⟩
    · exact .inr ⟨after, known, .refl after⟩

theorem continues_beginRead (found : server.connections.lookup client = some connection)
    (chunk : Bytes)
    : server.Continues (server.beginRead client chunk connection) :=
  continues_insert found rfl le_rfl (Connection.continues_of_same rfl rfl rfl rfl)

theorem continues_readLine (found : server.connections.lookup client = some connection)
    : server.Continues (server.readLine client connection) := by
  unfold readLine
  split
  · exact continues_of_same rfl le_rfl
  · exact continues_insert found rfl le_rfl (Connection.continues_of_same rfl rfl rfl rfl)
  · exact continues_insert found rfl le_rfl (Connection.continues_of_same rfl rfl rfl rfl)
  · exact continues_insert found rfl le_rfl (Connection.continues_of_same rfl rfl rfl rfl)

theorem continues_deliver (server : Server) (result : TaskResult) (rest : List TaskResult)
    : server.Continues (server.deliver result rest) := by
  unfold deliver
  split
  · exact continues_of_same rfl le_rfl
  · rename_i connection found
    exact continues_insert found rfl le_rfl (connection.continues_place result)

theorem continues_handleWrite (found : server.connections.lookup client = some connection)
    (sent : Option ℕ)
    : server.Continues (server.handleWrite client sent connection) := by
  cases sent with
  | none =>
      unfold handleWrite
      dsimp only
      split
      · rename_i empty
        refine continues_insert found rfl le_rfl ?_
        have written := connection.continues_written 0
        simpa [empty] using written
      · exact server.continues_disconnect client
  | some count => exact continues_insert found rfl le_rfl (connection.continues_written count)

theorem continues_of_free {action : Action} (within : EventLoop.free action = true)
    (taken : server.step action = some next)
    : server.Continues next := by
  rcases free_cases within taken with
    ⟨client, connection, -, found, rfl⟩
    | ⟨request, -, rfl⟩
    | same
  · exact continues_readLine found
  · exact continues_of_same rfl le_rfl
  · exact continues_of_same same.connections (accepted_mono (takes_of_step taken))

end Server

namespace EventLoop

variable {loop next : EventLoop} {turn : LoopTurn} {client : Socket}

theorem continues_handleRead (client : Socket) (received : Option Bytes) (loop : EventLoop)
    : loop.server.Continues (loop.handleRead client received).server := by
  unfold handleRead
  cases received with
  | none => exact loop.server.continues_disconnect client
  | some chunk =>
      dsimp only
      split
      · exact Server.continues_of_same rfl le_rfl
      · rename_i connection found
        exact Server.continues_beginRead found chunk

theorem continues_handleWrite (client : Socket) (sent : Option ℕ) (loop : EventLoop)
    : loop.server.Continues (loop.handleWrite client sent).server := by
  unfold handleWrite
  split
  · exact Server.continues_of_same rfl le_rfl
  · rename_i connection found
    split
    · exact loop.server.continues_disconnect client
    · exact Server.continues_handleWrite found sent

theorem continues_acceptConnection (client : Socket) (ip : Bytes) (loop : EventLoop)
    : loop.server.Continues (loop.acceptConnection client ip).server := by
  unfold acceptConnection
  split
  · exact Server.continues_of_same rfl le_rfl
  · exact loop.server.continues_acceptConnection client ip

theorem Handled.continues {fd : Socket} {revents : Revents} {rest : List (Socket × Revents)}
    {accepted : Option (Socket × Bytes)} {received : Option Bytes}
    (handled : Handled fd revents rest accepted received loop next)
    : loop.server.Continues next.server := by
  cases handled with
  | listened | silent => exact Server.continues_of_same rfl le_rfl
  | accepted => exact loop.continues_acceptConnection _ _
  | hungUp => exact loop.server.continues_disconnect fd
  | read => exact loop.continues_handleRead fd received

/-- By cases on the turn. -/
theorem continues_step (taken : loop.step turn = some next)
    : loop.server.Continues next.server := by
  cases takes_of_step taken with
  | drain | drained | quiet | polled | next => exact Server.continues_of_same rfl le_rfl
  | deliver => exact loop.server.continues_deliver _ _
  | rebuild =>
      refine Server.continues_of_same loop.server.connections_unpause ?_
      change loop.server.accepted ≤ loop.server.unpause.accepted
      unfold Server.unpause
      split <;> exact le_rfl
  | entry => exact (loop.handled_handleEntry _ _ _ _ _).continues
  | @write client writable rest sent =>
      cases writable with
      | false => exact Server.continues_of_same rfl le_rfl
      | true => exact loop.continues_handleWrite client sent
  | turn within moved => exact Server.continues_of_free within moved

-----------------------------------------------------------------------------------------
-- The poll set
-----------------------------------------------------------------------------------------

/-- Connections have numbers of their own, and the poll is asked of every socket that there is
something to write to.
-/
structure Flowing (loop : EventLoop) : Prop where
  bookkept : loop.Bookkept
  settled : loop.Settled
  numbered
    : ∀ client connection,
        loop.server.connections.lookup client = some connection
        → connection.id < loop.server.accepted
  announces
    : ∀ client connection,
        loop.server.connections.lookup client = some connection → connection.Announces
  asked
    : loop.place = .polling
      → ∀ client connection,
          loop.server.connections.lookup client = some connection
          → connection.writeBuffer ≠ []
          → ∃ pollFd ∈ loop.pollFds, pollFd.fd = client ∧ pollFd.writable = true

namespace Flowing

theorem start (listenSocket : Socket) (threads capacity : ℕ) (store : LoggedStore) (clock : Int)
    : (start listenSocket threads capacity store clock).Flowing where
  bookkept := .start listenSocket threads capacity store clock
  settled := rfl
  numbered client connection there := by cases there
  announces client connection there := by cases there
  asked polls := by cases polls

/-- The rebuilt poll array asks for every open connection what it announces. -/
theorem asked_rebuild (flowing : loop.Flowing) {order : List Socket}
    (all : order.toFinset = loop.server.connections.keys) {connection : Connection}
    (there : loop.server.connections.lookup client = some connection)
    (filled : connection.writeBuffer ≠ [])
    : ∃ pollFd ∈ ({ loop with server := loop.server.unpause }.rebuildPollSet order).pollFds,
        pollFd.fd = client ∧ pollFd.writable = true := by
  have listed : client ∈ order := by
    rw [← List.mem_toFinset, all]
    exact Finmap.mem_keys.mpr (Finmap.mem_of_lookup_eq_some there)
  refine ⟨_, List.mem_cons_of_mem _ (List.mem_map_of_mem listed), rfl, ?_⟩
  simp [there, flowing.announces client connection there filled]

/-- Every turn keeps this, by cases on what it does. -/
theorem step (flowing : loop.Flowing) (taken : loop.step turn = some next) : next.Flowing := by
  have continues := continues_step taken
  refine ⟨flowing.bookkept.step taken, flowing.settled.step taken, ?_, ?_, ?_⟩
  · intro client after there
    rcases continues.each client after there with ⟨new, more, -⟩ | ⟨before, found, kept⟩
    · exact new ▸ more
    · rw [kept.id]
      exact (flowing.numbered client before found).trans_le continues.accepted
  · intro client after there
    rcases continues.each client after there with ⟨-, -, announces⟩ | ⟨before, found, kept⟩
    · exact announces
    · exact kept.announces (flowing.announces client before found)
  · intro polls client connection there filled
    cases takes_of_step taken with
    | rebuild tests idle once all =>
        have known := loop.server.connections_unpause
        exact flowing.asked_rebuild all (known ▸ there) filled
    | @turn action server within moved =>
        have idle := flowing.settled
        rw [Settled, show loop.place = .polling from polls] at idle
        have nowhere : loop.server.position.client? = none := by rw [idle]; rfl
        have same := (Server.untouched_of_free within moved nowhere).connections
        exact flowing.asked polls client connection (same ▸ there) filled
    | @entry fd revents rest accepted received =>
        have handled := loop.handled_handleEntry fd revents rest accepted received
        generalize loop.handleEntry fd revents rest accepted received = next at handled polls
        cases handled <;> cases polls
    | deliver place => simp [place] at polls
    | drain | drained | quiet | polled | write | next => cases polls

end Flowing

-----------------------------------------------------------------------------------------
-- Rounds
-----------------------------------------------------------------------------------------

/-- The loop is at the writing part of the client's entry. -/
def Writes (client : Socket) : LoopPlace → Bool
  | .behindRead fd _ _ => fd = client
  | .top | .draining | .testing | .polling | .entries _ => false

/-- The client takes what it is offered: its socket is writable when the poll asks for that, and
`send` takes a byte at least.
-/
def Receives (client : Socket) (loop : EventLoop) : LoopTurn → Prop
  | .poll (some reported) =>
      ∀ pair ∈ loop.pollFds.zip reported,
        pair.1.fd = client → pair.1.writable = true → pair.2.writable = true
  | .write (some count) =>
      Writes client loop.place = true
      → ∀ connection ∈ loop.server.connections.lookup client,
          connection.writeBuffer ≠ [] → 0 < count
  | .drain | .deliver | .rebuild _ | .poll none | .entry .. | .write none | .next | .turn _ => True

instance (client : Socket) (loop : EventLoop) (turn : LoopTurn)
    : Decidable (loop.Receives client turn) :=
  match turn with
  | .poll (some reported) =>
      inferInstanceAs (Decidable (∀ pair ∈ loop.pollFds.zip reported, _ → _ → _))
  | .write (some _) =>
      inferInstanceAs
        (Decidable
          (Writes client loop.place = true
          → ∀ connection ∈ loop.server.connections.lookup client, _ → _))
  | .drain | .deliver | .rebuild _ | .poll none | .entry .. | .write none | .next | .turn _ =>
      isTrue trivial

/-- The poll returns with events. -/
def Polls : LoopTurn → Bool
  | .poll (some _) => true
  | _ => false

/-- The writing part of the client's entry is still to come. -/
def Due (client : Socket) : LoopPlace → Prop
  | .entries rest => ∃ revents, (client, revents) ∈ rest ∧ revents.writable = true
  | .behindRead fd writable rest =>
      fd = client ∧ writable = true ∨ ∃ revents, (client, revents) ∈ rest ∧ revents.writable = true
  | .top | .draining | .testing | .polling => False

/-- What a connection had to send has been sent, or a byte of it in each round. -/
def Paid (earlier : Connection) (rounds : ℕ) (due : Prop) (later : Connection) : Prop :=
  earlier.sent.length + earlier.writeBuffer.length ≤ later.sent.length
  ∨ earlier.sent.length + rounds ≤ later.sent.length
  ∨ due ∧ earlier.sent.length + rounds ≤ later.sent.length + 1

theorem Paid.mono {earlier middle later : Connection} {rounds : ℕ} {due still : Prop}
    (paid : Paid earlier rounds due middle) (sent : middle.sent.length ≤ later.sent.length)
    (stays : due → still)
    : Paid earlier rounds still later := by
  rcases paid with all | each | ⟨owed, each⟩
  · exact .inl (all.trans sent)
  · exact .inr (.inl (each.trans sent))
  · exact .inr (.inr ⟨stays owed, by omega⟩)

/-- Behind an entry that is not the client's the client's entry is still to come. -/
theorem due_of_entry {fd : Socket} {revents : Revents} {rest : List (Socket × Revents)}
    (due : Due client (.entries ((fd, revents) :: rest)))
    : fd = client ∧ revents.writable = true ∨ Due client (.entries rest) := by
  obtain ⟨shown, member, writable⟩ := due
  rcases List.mem_cons.mp member with same | later
  · obtain ⟨rfl, rfl⟩ := Prod.mk.inj same
    exact .inl ⟨rfl, writable⟩
  · exact .inr ⟨shown, later, writable⟩

/-- A turn other than `handle_write` leaves it to come, as long as the connection is open. -/
theorem due_step (flowing : loop.Flowing) (taken : loop.step turn = some next)
    {connection : Connection} (open' : loop.server.connections.lookup client = some connection)
    {after : Connection} (still : next.server.connections.lookup client = some after)
    (other : ∀ sent, turn ≠ .write sent) (due : Due client loop.place)
    : Due client next.place := by
  cases takes_of_step taken with
  | drain place | drained place | rebuild place | quiet place | polled place =>
      rw [place] at due
      exact due.elim
  | next place =>
      rw [place] at due
      obtain ⟨shown, member, -⟩ := due
      cases member
  | deliver | turn => exact due
  | write => exact absurd rfl (other _)
  | @entry fd revents rest accepted received first =>
      rw [first] at due
      have handled := loop.handled_handleEntry fd revents rest accepted received
      generalize loop.handleEntry fd revents rest accepted received = next at handled still ⊢
      have later (different : fd ≠ client) : Due client (.entries rest) :=
        (due_of_entry due).resolve_left fun own => different own.1
      have apart (listening : fd = loop.listenSocket) : fd ≠ client := by
        intro same
        apply flowing.bookkept.listening
        rw [← listening, same]
        exact Finmap.mem_keys.mpr (Finmap.mem_of_lookup_eq_some open')
      cases handled with
      | listened listening => exact later (apart listening)
      | accepted listening => exact later (apart listening)
      | hungUp =>
          refine later fun same => ?_
          rw [← same, show (loop.disconnect fd).server.connections.lookup fd = none from
            Finmap.lookup_erase _ _] at still
          cases still
      | read | silent => exact due_of_entry due

/-- The client's socket has its turn when the poll returns. -/
theorem due_of_polled (flowing : loop.Flowing) (polls : loop.place = .polling)
    {reported : List Revents} (each : reported.length = loop.pollFds.length)
    (receives : loop.Receives client (.poll (some reported))) {connection : Connection}
    (there : loop.server.connections.lookup client = some connection)
    (filled : connection.writeBuffer ≠ [])
    : Due client (.entries ((loop.pollFds.map PollFd.fd).zip reported)) := by
  obtain ⟨pollFd, member, rfl, writable⟩ := flowing.asked polls client connection there filled
  obtain ⟨index, inside, rfl⟩ := List.mem_iff_getElem.mp member
  have listed : (loop.pollFds[index], reported[index]) ∈ loop.pollFds.zip reported := by
    refine List.mem_iff_getElem.mpr ⟨index, by simp [each, inside], ?_⟩
    rw [List.getElem_zip]
  refine ⟨reported[index], ?_, receives _ listed rfl writable⟩
  rw [List.zip_map_left]
  exact List.mem_map.mpr ⟨_, listed, rfl⟩

/-- A byte at least is sent when the client's entry comes to its writing part. -/
theorem sent_of_write {rest : List (Socket × Revents)} {sent : Option ℕ}
    (place : loop.place = .behindRead client true rest)
    (receives : loop.Receives client (.write sent)) {before after : Connection}
    (there : loop.server.connections.lookup client = some before)
    (filled : before.writeBuffer ≠ [])
    (still : (loop.handleWrite client sent).server.connections.lookup client = some after)
    : before.sent.length < after.sent.length := by
  cases sent with
  | none =>
      simp [handleWrite, there, filled, EventLoop.disconnect, Server.disconnect] at still
  | some count =>
      have positive := receives (by simp [place, Writes]) before there filled
      simp only [handleWrite, there, Option.isNone_some, Bool.false_eq_true, false_and, if_false,
        Server.handleWrite, Server.putConnection, Finmap.lookup_insert] at still
      obtain rfl := Option.some.inj still
      exact before.sent_written positive filled

/-- The client's connection follows what it was at some time, and what has been sent since then is
paid.
-/
structure Serves (client : Socket) (earlier : Connection) (rounds : ℕ) (loop : EventLoop)
    : Prop where
  past : earlier.id < loop.server.accepted
  each
    : ∀ later,
        loop.server.connections.lookup client = some later
        → later.id = earlier.id
        → earlier.Follows later ∧ Paid earlier rounds (Due client loop.place) later

/-- Every turn keeps this, by cases on what it does. -/
theorem Serves.step {earlier : Connection} {rounds : ℕ}
    (serves : Serves client earlier rounds loop) (flowing : loop.Flowing)
    (receives : loop.Receives client turn) (taken : loop.step turn = some next)
    : Serves client earlier (rounds + if Polls turn then 1 else 0) next := by
  have continues := continues_step taken
  refine ⟨serves.past.trans_le continues.accepted, fun later still same => ?_⟩
  rcases continues.each client later still with ⟨new, -⟩ | ⟨before, there, kept⟩
  · have past := serves.past
    omega
  obtain ⟨follows, paid⟩ := serves.each before there (kept.id.symm.trans same)
  refine ⟨follows.trans kept.toFollows, ?_⟩
  have more : before.sent.length ≤ later.sent.length := kept.sent.length_le
  by_cases empty : before.writeBuffer = []
  · exact .inl ((follows.sent_of_empty empty).trans more)
  have otherwise (none : ∀ sent, turn ≠ .write sent)
      : Paid earlier rounds (Due client next.place) later :=
    paid.mono more (due_step flowing taken there still none)
  cases turn with
  | poll reported =>
      cases takes_of_step taken with
      | quiet => exact otherwise (by simp)
      | @polled reported polls idle listed =>
          have due := due_of_polled flowing polls listed receives there empty
          rw [polls] at paid
          rcases paid with all | each | ⟨owed, -⟩
          · exact .inl (all.trans more)
          · refine .inr (.inr ⟨due, ?_⟩)
            simp only [Polls, if_true]
            omega
          · exact owed.elim
  | write sent =>
      cases takes_of_step taken with
      | @write fd writable rest sent place idle fits =>
          rw [place] at paid
          rcases paid with all | each | ⟨⟨rfl, rfl⟩ | behind, each⟩
          · exact .inl (all.trans more)
          · exact .inr (.inl (each.trans more))
          · have sent := sent_of_write place receives there empty still
            exact .inr (.inl (each.trans sent))
          · exact .inr (.inr ⟨behind, each.trans (Nat.succ_le_succ more)⟩)
  | drain | deliver | rebuild | entry | next | turn => exact otherwise (by simp)

section Runs

variable {listenSocket : Socket} {threads capacity : ℕ} {store : LoggedStore} {clock : Int}
  {steps more : List (EventLoop × LoopTurn)} {later : EventLoop}

theorem flowing_of_run
    (run
      : TransitionSystem.Run step (start listenSocket threads capacity store clock) steps loop)
    : loop.Flowing :=
  run.preserves (fun flowing taken => flowing.step taken)
    (.start listenSocket threads capacity store clock)

/-- By induction on the run since then. -/
theorem serves_of_run (flowing : loop.Flowing)
    (goesOn : TransitionSystem.Run step loop more later)
    (receives : TransitionSystem.Along (Receives client) more) {before : Connection}
    (there : loop.server.connections.lookup client = some before)
    : Serves client before (more.countP fun entry => Polls entry.2) later := by
  induction goesOn with
  | nil =>
      refine ⟨flowing.numbered client before there, fun other found _ => ?_⟩
      obtain rfl := Option.some.inj (there.symm.trans found)
      exact ⟨.refl before, .inr (.inl (Nat.le_add_right _ 0))⟩
  | snoc earlier taken ih =>
      obtain ⟨others, last⟩ := TransitionSystem.along_snoc.mp receives
      have middle := earlier.preserves (fun flowing taken => flowing.step taken) flowing
      rw [List.countP_append, List.countP_singleton]
      exact (ih others).step middle last taken

/-- Whatever else the server is busy with, a client that takes what it is offered gets what it is
to be sent: of what was in its write buffer at any time, a byte more has been sent for each poll
since then, until it has all been sent, and in its order.
-/
theorem sends_each_round
    (run
      : TransitionSystem.Run step (start listenSocket threads capacity store clock) steps loop)
    (goesOn : TransitionSystem.Run step loop more later)
    (receives : TransitionSystem.Along (Receives client) more) (polls : later.place = .polling)
    {before after : Connection} (there : loop.server.connections.lookup client = some before)
    (still : later.server.connections.lookup client = some after) (same : after.id = before.id)
    : before.sent ++ before.writeBuffer.take (more.countP fun entry => Polls entry.2)
      <+: after.sent := by
  have serves := serves_of_run (flowing_of_run run) goesOn receives there
  obtain ⟨follows, paid⟩ := serves.each after still same
  have part
      : before.sent ++ before.writeBuffer.take (more.countP fun entry => Polls entry.2)
        <+: after.sent ++ after.writeBuffer :=
    ((List.prefix_append_right_inj _).mpr (List.take_prefix _ _)).trans follows.output
  refine List.prefix_of_prefix_length_le part (List.prefix_append _ _) ?_
  rw [List.length_append, List.length_take]
  rw [polls] at paid
  rcases paid with all | each | ⟨owed, -⟩
  · omega
  · omega
  · exact owed.elim

/-- A client takes a byte of its response in one round and three in the next. -/
theorem sends_each_round_slowly
    : ∃ steps loop more later before after,
        TransitionSystem.Run step (start 3 1 8 (.empty 1024 0) 0) steps loop
        ∧ TransitionSystem.Run step loop more later
        ∧ loop.server.connections.lookup 5 = some before
        ∧ before.writeBuffer = unknownCommandReply
        ∧ later.server.connections.lookup 5 = some after
        ∧ after.sent = ascii "-ERR"
        ∧ before.sent ++ before.writeBuffer.take 2 <+: after.sent := by
  have taking {steps more : List (EventLoop × LoopTurn)} {loop later : EventLoop}
      (traced
        : TransitionSystem.trace step (start 3 1 8 (.empty 1024 0) 0)
            [.drain, .deliver, .rebuild [], .poll (some [⟨false, true, false⟩]),
              .entry (some (5, [])) none, .next,
              .drain, .deliver, .rebuild [5],
              .poll (some [⟨false, false, false⟩, ⟨false, true, false⟩]),
              .entry none none, .entry none (some (ascii "X\n")), .turn .readLine,
              .turn .process, .turn .readLine, .write none, .next,
              .drain, .deliver, .deliver, .rebuild [5]]
          = some (steps, loop))
      (traced'
        : TransitionSystem.trace step loop
            [.poll (some [⟨false, false, false⟩, ⟨false, false, true⟩]),
              .entry none none, .entry none none, .write (some 1), .next,
              .drain, .deliver, .rebuild [5],
              .poll (some [⟨false, false, false⟩, ⟨false, false, true⟩]),
              .entry none none, .entry none none, .write (some 3), .next,
              .drain, .deliver, .rebuild [5]]
          = some (more, later))
      : TransitionSystem.Run step (start 3 1 8 (.empty 1024 0) 0) steps loop
        ∧ TransitionSystem.Run step loop more later :=
    ⟨TransitionSystem.run_of_trace traced, TransitionSystem.run_of_trace traced'⟩
  obtain ⟨run, goesOn⟩ := taking rfl rfl
  have sent :=
    @sends_each_round _ 5 _ _ _ _ _ _ _ _ run goesOn (by decide +kernel) rfl _ _ rfl rfl rfl
  exact ⟨_, _, _, _, _, _, run, goesOn, rfl, rfl, rfl, rfl, sent⟩

end Runs

end EventLoop

end InMemoryDB
