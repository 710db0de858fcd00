import InMemoryDB.Network.Completion
import InMemoryDB.Network.EventRuns
import Mathlib.Algebra.BigOperators.Group.Finset.Basic

/-! A round of the main loop comes to its end: every turn that the reactor takes in it leaves less
of it, and as long as there is something left it has a turn that it can take.
-/

namespace InMemoryDB

/-- The turns within `handle_read` that the reactor takes itself. -/
def Action.Own : Action → Bool
  | .readLine | .process => true
  | _ => false

/-- A turn that the reactor takes, and none of another thread. -/
def LoopTurn.Own : LoopTurn → Bool
  | .turn action => action.Own
  | _ => true

-----------------------------------------------------------------------------------------
-- The bytes that are still to be read
-----------------------------------------------------------------------------------------

namespace Server

variable {server next : Server} {client : Socket} {connection changed : Connection}

/-- The bytes in all read buffers. -/
def buffered (server : Server) : ℕ := ∑ client ∈ server.connections.keys, server.unread client

theorem unread_of_lookup (found : server.connections.lookup client = some connection)
    : server.unread client = connection.readBuffer.length := by
  rw [unread, found]

theorem buffered_of_connections (same : next.connections = server.connections)
    : next.buffered = server.buffered := by
  simp only [buffered, unread, same]

/-- The others have what they had. -/
theorem sum_erase_unread
    (others
      : ∀ other, other ≠ client → next.connections.lookup other = server.connections.lookup other)
    : ∑ other ∈ server.connections.keys.erase client, next.unread other
      = ∑ other ∈ server.connections.keys.erase client, server.unread other := by
  refine Finset.sum_congr rfl fun other member => ?_
  rw [unread, unread, others other (Finset.ne_of_mem_erase member)]

/-- A changed connection counts in place of the one that was there. -/
theorem buffered_insert (found : server.connections.lookup client = some connection)
    (moved : next.connections = server.connections.insert client changed)
    : next.buffered + connection.readBuffer.length
      = server.buffered + changed.readBuffer.length := by
  have member : client ∈ server.connections.keys :=
    Finmap.mem_keys.mpr (Finmap.mem_of_lookup_eq_some found)
  have keys : next.connections.keys = server.connections.keys := by
    ext other
    rw [moved, Finmap.mem_keys, Finmap.mem_insert, Finmap.mem_keys]
    exact ⟨fun either => either.elim (fun same => same ▸ Finmap.mem_keys.mp member) id, .inr⟩
  have here : next.unread client = changed.readBuffer.length :=
    unread_of_lookup (moved ▸ Finmap.lookup_insert _)
  have others :=
    @sum_erase_unread server next client fun other different =>
      moved ▸ Finmap.lookup_insert_of_ne _ different
  rw [buffered, buffered, keys, ← Finset.add_sum_erase _ _ member,
    ← Finset.add_sum_erase _ server.unread member, here, others, unread_of_lookup found]
  omega

theorem buffered_of_read (found : server.connections.lookup client = some connection)
    (moved : next.connections = server.connections.insert client changed)
    (read : changed.readBuffer = connection.readBuffer)
    : next.buffered = server.buffered := by
  have counted := buffered_insert found moved
  rw [read] at counted
  exact Nat.add_right_cancel counted

/-- A new connection has nothing in its buffer. -/
theorem buffered_accept (closed : client ∉ server.connections)
    (moved : next.connections = server.connections.insert client changed)
    (empty : changed.readBuffer = [])
    : next.buffered = server.buffered := by
  have absent : client ∉ server.connections.keys := mt Finmap.mem_keys.mp closed
  have keys : next.connections.keys = insert client server.connections.keys := by
    ext other
    rw [moved, Finmap.mem_keys, Finmap.mem_insert, Finset.mem_insert, Finmap.mem_keys]
  have here : next.unread client = 0 := by
    rw [unread_of_lookup (moved ▸ Finmap.lookup_insert _), empty, List.length_nil]
  have others :=
    @sum_erase_unread server next client fun other different =>
      moved ▸ Finmap.lookup_insert_of_ne _ different
  rw [Finset.erase_eq_of_notMem absent] at others
  rw [buffered, keys, Finset.sum_insert absent, here, others, Nat.zero_add, buffered]

theorem buffered_disconnect (server : Server) (client : Socket)
    : (server.disconnect client).buffered ≤ server.buffered := by
  have keys
      : (server.disconnect client).connections.keys = server.connections.keys.erase client :=
    Finmap.keys_erase ..
  have others :=
    @sum_erase_unread server (server.disconnect client) client fun other different =>
      Finmap.lookup_erase_ne different
  rw [buffered, keys, others, buffered]
  by_cases member : client ∈ server.connections.keys
  · rw [← Finset.add_sum_erase _ _ member]
    omega
  · rw [Finset.erase_eq_of_notMem member]

/-- A bound for the turns that the read loop and the drain still take. -/
def turnLeft (server : Server) : ℕ :=
  2 * server.buffered
  + match server.position with
    | .idle => 0
    | .draining results => results.length + 1
    | .reading _ => 1
    | .processing _ => 2

theorem turnLeft_disconnect (server : Server) (client : Socket)
    : (server.disconnect client).turnLeft ≤ server.turnLeft := by
  have less := server.buffered_disconnect client
  rw [turnLeft, turnLeft]
  exact Nat.add_le_add_right (Nat.mul_le_mul_left 2 less) _

theorem turnLeft_unpause (server : Server) : server.unpause.turnLeft = server.turnLeft := by
  rw [turnLeft, turnLeft, buffered_of_connections server.connections_unpause,
    server.position_unpause]

/-- What is received adds to it by twice its length, and the loop begins. -/
theorem turnLeft_beginRead (idle : server.position = .idle)
    (found : server.connections.lookup client = some connection) (chunk : Bytes)
    : (server.beginRead client chunk connection).turnLeft
      = server.turnLeft + 2 * chunk.length + 1 := by
  have grown :=
    @buffered_insert server (server.beginRead client chunk connection) _ _ _ found rfl
  simp only [List.length_append] at grown
  have reads : (server.beginRead client chunk connection).position = .reading client := rfl
  rw [turnLeft, turnLeft, idle, reads]
  dsimp only
  omega

/-- A turn that cuts a line off leaves less, whatever the reactor goes on with. -/
theorem turnLeft_of_cut (found : server.connections.lookup client = some connection)
    (moved : next.connections = server.connections.insert client changed)
    (shorter : changed.readBuffer.length < connection.readBuffer.length)
    (reads : ∀ results, next.position ≠ .draining results)
    : next.turnLeft ≤ 2 * server.buffered := by
  have counted := buffered_insert found moved
  rw [turnLeft]
  cases position : next.position with
  | draining results => exact absurd position (reads results)
  | idle | reading | processing =>
      dsimp only
      omega

/-- A turn of the read loop takes a line out of the buffer, or the loop ends. -/
theorem turnLeft_readLine (reads : server.position = .reading client)
    (found : server.connections.lookup client = some connection)
    : (server.readLine client connection).turnLeft < server.turnLeft := by
  have before : server.turnLeft = 2 * server.buffered + 1 := by rw [turnLeft, reads]
  rw [before, Nat.lt_succ_iff]
  rcases connection.readTurn_cases server.queueOver90 with
    ⟨-, turn⟩
    | ⟨line, rest, whole, -, -, ⟨-, turn⟩ | ⟨-, -, turn⟩ | ⟨-, -, turn⟩⟩
  · rw [readLine, turn]
    exact le_rfl
  all_goals
    have shorter : rest.length < connection.readBuffer.length := by
      rw [whole, List.length_append, List.length_cons]
      omega
    rw [readLine, turn]
    apply turnLeft_of_cut found rfl shorter
    simp [putConnection, reads]

/-- A result is placed or dropped. -/
theorem turnLeft_deliver {result : TaskResult} {rest : List TaskResult}
    (drains : server.position = .draining (result :: rest))
    : (server.deliver result rest).turnLeft < server.turnLeft := by
  have before : server.turnLeft = 2 * server.buffered + (rest.length + 2) := by
    rw [turnLeft, drains]
    rfl
  have after : (server.deliver result rest).position = .draining rest := by
    unfold deliver
    split <;> rfl
  have same : (server.deliver result rest).buffered = server.buffered := by
    unfold deliver
    split
    · rfl
    · rename_i connection found
      exact buffered_of_read found rfl (ConnectionState.input_place result _).2
  rw [turnLeft, after, same, before]
  dsimp only
  omega

/-- `handle_write` takes nothing out of a read buffer. -/
theorem turnLeft_handleWrite {sent : Option ℕ}
    (found : server.connections.lookup client = some connection)
    (kept : ¬ (sent.isNone ∧ connection.writeBuffer ≠ []))
    : (server.handleWrite client sent connection).turnLeft = server.turnLeft := by
  have same {next : Server} {changed : Connection}
      (moved : next.connections = server.connections.insert client changed)
      (read : changed.readBuffer = connection.readBuffer)
      (position : next.position = server.position)
      : next.turnLeft = server.turnLeft := by
    rw [turnLeft, turnLeft, buffered_of_read found moved read, position]
  cases sent with
  | none =>
      have empty : connection.writeBuffer = [] := by simpa using kept
      rw [handleWrite, if_pos empty]
      exact same rfl (ConnectionState.input_written 0 _).2 rfl
  | some count => exact same rfl (ConnectionState.input_written count _).2 rfl

/-- The turns of the reactor within `handle_read`. -/
theorem turnLeft_own {action : Action} (own : action.Own) (taken : server.step action = some next)
    : next.turnLeft < server.turnLeft := by
  cases action with
  | readLine =>
      cases takes_of_step taken with
      | readLine reads found => exact turnLeft_readLine reads found
      | disconnected client idle => simp [step, idle] at taken
  | process =>
      cases takes_of_step taken with
      | process processes =>
          rw [turnLeft, turnLeft, processes]
          exact Nat.lt_succ_self _
      | disconnected client idle => simp [step, idle] at taken
  | accept | recv | write | hangup | drain | deliver | unpause | pop | execute | post | sweep =>
      cases own

/-- The turns within `handle_read` are none where the reactor is at no connection. -/
theorem untouched_of_free {action : Action} (within : EventLoop.free action = true)
    (taken : server.step action = some next) (nowhere : server.position.client? = none)
    : server.Untouched next := by
  rcases free_cases within taken with
    ⟨client, connection, reads, -, -⟩
    | ⟨request, processes, -⟩
    | same
  · rw [reads] at nowhere
    cases nowhere
  · rw [processes] at nowhere
    cases nowhere
  · exact same

/-- And none of them begins a drain. -/
theorem calls_of_free {action : Action} (within : EventLoop.free action = true)
    (taken : server.step action = some next)
    (calls : ∀ results, server.position ≠ .draining results)
    : ∀ results, next.position ≠ .draining results := by
  intro results drains
  rcases free_cases within taken with
    ⟨client, connection, reads, -, rfl⟩
    | ⟨request, processes, rfl⟩
    | same
  · unfold readLine at drains
    split at drains
    · cases drains
    · exact calls results drains
    · cases drains
    · cases drains
  · cases drains
  · exact calls results (same.position.symm.trans drains)

/-- Between two calls the reactor is at no connection and at no result. -/
theorem rests_of_idle (idle : server.position = .idle)
    : server.Attends ∧ ∀ results, server.position ≠ .draining results := by
  refine ⟨attends_of_none (by rw [idle]; rfl), ?_⟩
  simp [idle]

/-- No turn of the workers or of the sweeper adds to it. -/
theorem turnLeft_of_free {action : Action} (within : EventLoop.free action = true)
    (taken : server.step action = some next)
    : next.turnLeft ≤ server.turnLeft := by
  rcases free_cases within taken with
    ⟨client, connection, reads, found, rfl⟩
    | ⟨request, processes, rfl⟩
    | same
  · exact (turnLeft_readLine reads found).le
  · rw [turnLeft, turnLeft, processes]
    exact Nat.le_succ _
  · rw [turnLeft, turnLeft, buffered_of_connections same.connections, same.position]

end Server

namespace EventLoop

variable {loop next : EventLoop} {turn : LoopTurn}

-----------------------------------------------------------------------------------------
-- An entry of the poll array
-----------------------------------------------------------------------------------------

/-- All that the handling of an entry up to its reading part can do. -/
inductive Handled (fd : Socket) (revents : Revents) (rest : List (Socket × Revents))
    (accepted : Option (Socket × Bytes)) (received : Option Bytes) (loop : EventLoop)
    : EventLoop → Prop
  | listened (listening : fd = loop.listenSocket)
    : Handled fd revents rest accepted received loop { loop with place := .entries rest }
  | accepted {client ip} (listening : fd = loop.listenSocket)
    (returned : client ∈ accepted.map Prod.fst)
    : Handled fd revents rest accepted received loop
        { loop.acceptConnection client ip with place := .entries rest }
  | hungUp (other : fd ≠ loop.listenSocket)
    : Handled fd revents rest accepted received loop
        { loop.disconnect fd with place := .entries rest }
  | read (other : fd ≠ loop.listenSocket)
    : Handled fd revents rest accepted received loop
        { loop.handleRead fd received with place := .behindRead fd revents.writable rest }
  | silent (other : fd ≠ loop.listenSocket)
    : Handled fd revents rest accepted received loop
        { loop with place := .behindRead fd revents.writable rest }

/-- It does one of these, by cases on what the entry is and what the poll has reported of it. -/
theorem handled_handleEntry (fd : Socket) (revents : Revents) (rest : List (Socket × Revents))
    (accepted : Option (Socket × Bytes)) (received : Option Bytes) (loop : EventLoop)
    : Handled fd revents rest accepted received loop
        (loop.handleEntry fd revents rest accepted received) := by
  unfold handleEntry
  split
  · rename_i listening
    split
    · exact .listened listening
    · split
      · exact .accepted listening rfl
      · exact .listened listening
  · rename_i other
    split
    · exact .hungUp other
    · split
      · exact .read other
      · exact .silent other

-----------------------------------------------------------------------------------------
-- Every turn leaves less to do
-----------------------------------------------------------------------------------------

/-- What an entry of the poll array weighs. `recv` takes 4096 bytes at most, and each of them may
end a line that is read and then processed.
-/
def entryWeight : ℕ := 8195

/-- What is still to be done of the round when the calls of the place have returned. -/
def placeLeft (loop : EventLoop) : ℕ :=
  match loop.place with
  | .top => 0
  | .entries rest => entryWeight * rest.length + 1
  | .behindRead _ _ rest => entryWeight * rest.length + 2
  | .polling => entryWeight * loop.pollFds.length + 2
  | .testing | .draining => entryWeight * (loop.server.connections.keys.card + 1) + 3

/-- A bound for the turns that the rest of the round takes. -/
def roundLeft (loop : EventLoop) : ℕ := loop.placeLeft + loop.server.turnLeft

theorem placeLeft_eq (place : next.place = loop.place) (pollFds : next.pollFds = loop.pollFds)
    (keys : next.server.connections.keys = loop.server.connections.keys)
    : next.placeLeft = loop.placeLeft := by
  simp only [placeLeft, place, pollFds, keys]

/-- A turn that stays at the place leaves as much of the round as it leaves of the turns. -/
theorem roundLeft_lt (place : next.place = loop.place) (pollFds : next.pollFds = loop.pollFds)
    (keys : next.server.connections.keys = loop.server.connections.keys)
    (less : next.server.turnLeft < loop.server.turnLeft)
    : next.roundLeft < loop.roundLeft := by
  rw [roundLeft, roundLeft, placeLeft_eq place pollFds keys]
  exact Nat.add_lt_add_left less _

theorem turnLeft_acceptConnection {client : Socket} (closed : client ∉ loop.server.connections)
    (ip : Bytes)
    : (loop.acceptConnection client ip).server.turnLeft = loop.server.turnLeft := by
  have same : (loop.acceptConnection client ip).server.buffered = loop.server.buffered := by
    unfold acceptConnection
    split
    · rfl
    · rename_i room
      change (loop.server.acceptConnection client ip).buffered = _
      rw [Server.acceptConnection, if_neg room]
      exact Server.buffered_accept closed rfl rfl
  rw [Server.turnLeft, Server.turnLeft, position_acceptConnection, same]

/-- `handle_read` may leave all that it received to the read loop. -/
theorem turnLeft_handleRead (idle : loop.server.position = .idle) {client : Socket}
    {received : Option Bytes} (fits : ∀ chunk ∈ received, chunk.length ≤ 4096)
    : (loop.handleRead client received).server.turnLeft ≤ loop.server.turnLeft + 8193 := by
  unfold handleRead
  cases received with
  | none =>
      have less := loop.server.turnLeft_disconnect client
      exact Nat.le_add_right_of_le less
  | some chunk =>
      have short := fits chunk rfl
      cases found : loop.server.connections.lookup client with
      | none => exact Nat.le_add_right _ _
      | some connection =>
          have more := Server.turnLeft_beginRead idle found chunk
          change (loop.server.beginRead client chunk connection).turnLeft ≤ _
          omega

theorem turnLeft_handleWrite (client : Socket) (sent : Option ℕ)
    : (loop.handleWrite client sent).server.turnLeft ≤ loop.server.turnLeft := by
  unfold handleWrite
  cases found : loop.server.connections.lookup client with
  | none => exact le_rfl
  | some connection =>
      dsimp only
      split
      · exact loop.server.turnLeft_disconnect client
      · rename_i kept
        exact (Server.turnLeft_handleWrite found kept).le

/-- One entry less is left, by cases on how it is handled. -/
theorem Handled.roundLeft {fd : Socket} {revents : Revents} {rest : List (Socket × Revents)}
    {accepted : Option (Socket × Bytes)} {received : Option Bytes}
    (handled : Handled fd revents rest accepted received loop next)
    (first : loop.place = .entries ((fd, revents) :: rest))
    (idle : loop.server.position = .idle) (free : loop.Free accepted)
    (fits : ∀ chunk ∈ received, chunk.length ≤ 4096)
    : next.roundLeft < loop.roundLeft := by
  have before : loop.placeLeft = entryWeight * rest.length + entryWeight + 1 := by
    rw [placeLeft, first]
    rfl
  have weight : entryWeight = 8195 := rfl
  rw [EventLoop.roundLeft, EventLoop.roundLeft, before]
  cases handled with
  | listened | silent =>
      simp only [placeLeft, weight]
      omega
  | @accepted client ip listening returned =>
      have same := turnLeft_acceptConnection (free client returned).1 ip
      simp only [placeLeft, same, weight]
      omega
  | hungUp =>
      have less := loop.server.turnLeft_disconnect fd
      simp only [placeLeft, EventLoop.disconnect, weight]
      omega
  | read =>
      have more := @turnLeft_handleRead loop idle fd received fits
      simp only [placeLeft, weight]
      omega

/-- A turn of the reactor leaves less of the round, unless it begins one; by cases on what it
does.
-/
theorem roundLeft_step (own : turn.Own) (goesOn : turn ≠ .drain)
    (taken : loop.step turn = some next)
    : next.roundLeft < loop.roundLeft := by
  cases takes_of_step taken with
  | drain => exact absurd rfl goesOn
  | drained place drains =>
      simp only [roundLeft, placeLeft, place, Server.turnLeft, drains, Server.buffered,
        Server.unread, List.length_nil]
      omega
  | @deliver result rest place drains =>
      have same := loop.server.sameHandles_deliver result rest
      exact roundLeft_lt rfl rfl same.keys (Server.turnLeft_deliver drains)
  | @rebuild order tests idle once all =>
      have listed : order.length = loop.server.connections.keys.card := by
        rw [← all, List.toFinset_card_of_nodup once]
      have same := loop.server.turnLeft_unpause
      simp only [roundLeft, placeLeft, tests, rebuildPollSet, same, List.length_cons,
        List.length_map, listed]
      omega
  | quiet polls =>
      simp only [roundLeft, placeLeft, polls]
      omega
  | @polled reported polls idle each =>
      simp only [roundLeft, placeLeft, polls, List.length_zip, List.length_map, each, min_self]
      omega
  | @entry fd revents rest accepted received first idle free fits =>
      have handled := loop.handled_handleEntry fd revents rest accepted received
      exact handled.roundLeft first idle free fun chunk member => (fits chunk member).2
  | @write client writable rest sent place idle =>
      cases writable with
      | false =>
          simp only [roundLeft, placeLeft, place, Bool.false_eq_true, if_false]
          omega
      | true =>
          have less := @turnLeft_handleWrite loop client sent
          simp only [roundLeft, placeLeft, place, if_true]
          omega
  | next place =>
      simp only [roundLeft, placeLeft, place, List.length_nil]
      omega
  | @turn action server within moved =>
      have same := Server.sameHandles_of_free within moved
      exact roundLeft_lt rfl rfl same.keys (Server.turnLeft_own own moved)

/-- A turn of another thread adds nothing to it. -/
theorem roundLeft_of_other (other : turn.Own = false) (taken : loop.step turn = some next)
    : next.roundLeft ≤ loop.roundLeft := by
  cases takes_of_step taken with
  | @turn action server within moved =>
      have same := Server.sameHandles_of_free within moved
      rw [roundLeft, roundLeft, @placeLeft_eq loop { loop with server := server } rfl rfl same.keys]
      exact Nat.add_le_add_left (Server.turnLeft_of_free within moved) _
  | drain | drained | deliver | rebuild | quiet | polled | entry | write | next => cases other


-----------------------------------------------------------------------------------------
-- The reactor can always go on
-----------------------------------------------------------------------------------------

/-- What the reactor is at fits the place of the loop. -/
def Settled (loop : EventLoop) : Prop :=
  match loop.place with
  | .draining => ∃ results, loop.server.position = .draining results
  | .behindRead .. => loop.server.Attends ∧ ∀ results, loop.server.position ≠ .draining results
  | .top | .testing | .polling | .entries _ => loop.server.position = .idle

theorem settled_handleRead (idle : loop.server.position = .idle) (client : Socket)
    (received : Option Bytes)
    : (loop.handleRead client received).server.Attends
      ∧ ∀ results, (loop.handleRead client received).server.position ≠ .draining results := by
  unfold handleRead
  cases received with
  | none => exact Server.rests_of_idle idle
  | some chunk =>
      cases found : loop.server.connections.lookup client with
      | none => exact Server.rests_of_idle idle
      | some connection =>
          refine ⟨?_, by simp [Server.beginRead]⟩
          intro other here
          obtain rfl := Option.some.inj here
          exact ⟨_, Finmap.lookup_insert _⟩

theorem Handled.settled {fd : Socket} {revents : Revents} {rest : List (Socket × Revents)}
    {accepted : Option (Socket × Bytes)} {received : Option Bytes}
    (handled : Handled fd revents rest accepted received loop next)
    (idle : loop.server.position = .idle)
    : next.Settled := by
  cases handled with
  | listened | hungUp => exact idle
  | accepted => exact (position_acceptConnection _ _ loop).trans idle
  | read => exact settled_handleRead idle fd received
  | silent => exact Server.rests_of_idle idle

/-- Every turn keeps this, by cases on what it does. -/
theorem Settled.step (settled : loop.Settled) (taken : loop.step turn = some next)
    : next.Settled := by
  cases takes_of_step taken with
  | drain => exact ⟨_, rfl⟩
  | drained => exact rfl
  | @deliver result rest place drains =>
      have after : (loop.server.deliver result rest).position = .draining rest := by
        unfold Server.deliver
        split <;> rfl
      simp only [Settled, place]
      exact ⟨rest, after⟩
  | rebuild tests idle => exact (Server.position_unpause loop.server).trans idle
  | quiet polls idle => exact idle
  | polled polls idle => exact idle
  | entry first idle => exact (loop.handled_handleEntry _ _ _ _ _).settled idle
  | @write client writable rest sent place idle =>
      cases writable with
      | false => exact idle
      | true => exact (position_handleWrite client sent loop).trans idle
  | next place idle => exact idle
  | @turn action server within moved =>
      cases place : loop.place with
      | top | testing | polling | entries =>
          simp only [Settled, place] at settled ⊢
          have nowhere : loop.server.position.client? = none := by rw [settled]; rfl
          exact (Server.untouched_of_free within moved nowhere).position.trans settled
      | draining =>
          simp only [Settled, place] at settled ⊢
          obtain ⟨results, drains⟩ := settled
          have nowhere : loop.server.position.client? = none := by rw [drains]; rfl
          exact ⟨results, (Server.untouched_of_free within moved nowhere).position.trans drains⟩
      | behindRead =>
          simp only [Settled, place] at settled ⊢
          obtain ⟨attends, calls⟩ := settled
          exact ⟨attends.step (Server.takes_of_step moved),
            Server.calls_of_free within moved calls⟩

/-- Within a round the reactor always has a turn that is enabled, by cases on the place. -/
theorem Settled.enabled (settled : loop.Settled) (within : loop.place ≠ .top)
    : ∃ turn : LoopTurn, turn.Own ∧ turn ≠ .drain ∧ loop.step turn ≠ none := by
  cases place : loop.place with
  | top => exact absurd place within
  | draining =>
      simp only [Settled, place] at settled
      obtain ⟨results, drains⟩ := settled
      refine ⟨.deliver, rfl, by simp, ?_⟩
      cases results <;> simp [EventLoop.step, place, drains]
  | testing =>
      simp only [Settled, place] at settled
      refine ⟨.rebuild loop.server.connections.keys.toList, rfl, by simp, ?_⟩
      simp [EventLoop.step, place, settled, Finset.nodup_toList]
  | polling =>
      simp only [Settled, place] at settled
      exact ⟨.poll none, rfl, by simp, by simp [EventLoop.step, place, settled]⟩
  | entries rest =>
      simp only [Settled, place] at settled
      cases rest with
      | nil => exact ⟨.next, rfl, by simp, by simp [EventLoop.step, place, settled]⟩
      | cons entry rest =>
          refine ⟨.entry none none, rfl, by simp, ?_⟩
          simp [EventLoop.step, place, settled, Free]
  | behindRead client writable rest =>
      simp only [Settled, place] at settled
      obtain ⟨attends, calls⟩ := settled
      cases position : loop.server.position with
      | idle => exact ⟨.write none, rfl, by simp, by simp [EventLoop.step, place, position]⟩
      | draining results => exact absurd position (calls results)
      | reading reader =>
          obtain ⟨connection, found⟩ := attends reader (by rw [position]; rfl)
          refine ⟨.turn .readLine, rfl, by simp, ?_⟩
          simp [EventLoop.step, free, Server.step, position, found]
      | processing request =>
          refine ⟨.turn .process, rfl, by simp, ?_⟩
          simp [EventLoop.step, free, Server.step, position]

/-- At the top only other threads and a new round are left. -/
theorem untouched_of_top (top : loop.place = .top) (idle : loop.server.position = .idle)
    (goesOn : turn ≠ .drain) (taken : loop.step turn = some next)
    : loop.server.Untouched next.server ∧ next.place = .top ∧ next.leases = loop.leases := by
  cases takes_of_step taken with
  | drain => exact absurd rfl goesOn
  | @turn action server within moved =>
      have nowhere : loop.server.position.client? = none := by rw [idle]; rfl
      exact ⟨Server.untouched_of_free within moved nowhere, top, rfl⟩
  | drained place | deliver place | rebuild place | quiet place | polled place | entry place
  | write place | next place => simp [top] at place

end EventLoop

end InMemoryDB
