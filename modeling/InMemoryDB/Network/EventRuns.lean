import InMemoryDB.Network.Bookkeeping

/-! The runs of the loop over its poll array are runs of the server, as long as the poll reports
nothing to read that it was not asked for.
-/

namespace InMemoryDB

namespace Server

variable {server next : Server} {action : Action}

/-- A turn within `handle_read` or of another thread pauses at most the connection that the read
loop is at.
-/
theorem pausedReads_of_free (within : EventLoop.free action = true)
    (taken : server.step action = some next)
    : next.pausedReads ⊆ server.pausedReads
      ∨ ∃ client,
          server.position.client? = some client
          ∧ next.pausedReads = insert client server.pausedReads := by
  rcases free_cases within taken with ⟨client, connection, reads, -, rfl⟩ | ⟨request, -, rfl⟩ | same
  · unfold readLine
    split
    · exact .inl (Finset.Subset.refl _)
    · exact .inl (Finset.Subset.refl _)
    · exact .inr ⟨client, by rw [reads]; rfl, rfl⟩
    · exact .inl (Finset.Subset.refl _)
  · exact .inl (Finset.Subset.refl _)
  · exact .inl same.paused.subset

/-- And such a turn does not bring the reactor to another connection. -/
theorem client?_of_free (within : EventLoop.free action = true)
    (taken : server.step action = some next) {client : Socket}
    (here : next.position.client? = some client)
    : server.position.client? = some client := by
  rcases free_cases within taken with
    ⟨other, connection, reads, -, rfl⟩
    | ⟨request, processes, rfl⟩
    | same
  · rw [reads]
    unfold readLine at here
    split at here
    · cases here
    · rwa [← reads]
    · cases here
    · exact here
  · rw [processes]
    exact here
  · rwa [← same.position]

end Server

namespace EventLoop

variable {loop next : EventLoop} {turn : LoopTurn}

/-- The poll reports of an entry that there is something to read only if the entry asks for it. -/
def Reports (loop : EventLoop) : LoopTurn → Prop
  | .poll (some reported) =>
      ∀ pair ∈ loop.pollFds.zip reported, pair.2.readable = true → pair.1.readable = true
  | .poll none | .drain | .deliver | .rebuild _ | .entry .. | .write _ | .next | .turn _ => True

/-- No socket that is still to be read from is paused. -/
def Calm (paused : Finset Socket) (pollFds : List PollFd) : LoopPlace → Prop
  | .top | .draining | .testing => True
  | .polling => ∀ pollFd ∈ pollFds, pollFd.readable = true → pollFd.fd ∉ paused
  | .entries rest | .behindRead _ _ rest =>
      ∀ entry ∈ rest, entry.2.readable = true → entry.1 ∉ paused

/-- The books are in order, and whatever the read loop pauses has its entry behind it. -/
structure Undisturbed (loop : EventLoop) : Prop extends Bookkept loop where
  reads
    : ∀ client,
        loop.server.position.client? = some client
        → ∃ writable rest, loop.place = .behindRead client writable rest
  calm : Calm loop.server.pausedReads loop.pollFds loop.place

theorem Calm.mono {paused fewer : Finset Socket} {pollFds : List PollFd} {place : LoopPlace}
    (calm : Calm paused pollFds place) (within : fewer ⊆ paused)
    : Calm fewer pollFds place := by
  cases place with
  | top | draining | testing => trivial
  | polling => exact fun pollFd member asked still => calm pollFd member asked (within still)
  | entries | behindRead =>
      exact fun entry member reported still => calm entry member reported (within still)

-----------------------------------------------------------------------------------------
-- The handlers
-----------------------------------------------------------------------------------------

theorem pausedReads_acceptConnection (client : Socket) (ip : Bytes) (loop : EventLoop)
    : (loop.acceptConnection client ip).server.pausedReads = loop.server.pausedReads := by
  unfold acceptConnection
  split
  · rfl
  · rename_i room
    simp [Server.acceptConnection, room, Server.putConnection]

/-- The handlers of a connection pause nothing. -/
theorem pausedReads_handleRead (client : Socket) (received : Option Bytes) (loop : EventLoop)
    : (loop.handleRead client received).server.pausedReads ⊆ loop.server.pausedReads := by
  unfold handleRead
  split
  · exact Finset.erase_subset _ _
  · split <;> exact Finset.Subset.refl _

theorem pausedReads_handleWrite (client : Socket) (sent : Option ℕ) (loop : EventLoop)
    : (loop.handleWrite client sent).server.pausedReads ⊆ loop.server.pausedReads := by
  unfold handleWrite
  split
  · exact Finset.Subset.refl _
  · rename_i connection found
    split
    · exact Finset.erase_subset _ _
    · rename_i kept
      exact (Server.sameHandles_handleWrite found kept).2.subset

/-- Only the read loop is brought to a connection by them. -/
theorem position_acceptConnection (client : Socket) (ip : Bytes) (loop : EventLoop)
    : (loop.acceptConnection client ip).server.position = loop.server.position := by
  unfold acceptConnection
  split
  · rfl
  · rename_i room
    simp [Server.acceptConnection, room, Server.putConnection]

theorem position_handleWrite (client : Socket) (sent : Option ℕ) (loop : EventLoop)
    : (loop.handleWrite client sent).server.position = loop.server.position := by
  unfold handleWrite
  split
  · rfl
  · split
    · rfl
    · cases sent with
      | none =>
          unfold Server.handleWrite
          dsimp only
          split <;> rfl
      | some count => rfl

theorem client?_handleRead {client other : Socket} {received : Option Bytes}
    (idle : loop.server.position = .idle)
    (here : (loop.handleRead client received).server.position.client? = some other)
    : other = client := by
  unfold handleRead at here
  split at here
  · rw [show (loop.disconnect client).server.position = .idle from idle] at here
    cases here
  · split at here
    · rw [idle] at here
      cases here
    · exact (Option.some.inj here).symm

namespace Undisturbed

theorem start (listenSocket : Socket) (threads capacity : ℕ) (store : LoggedStore) (clock : Int)
    : (start listenSocket threads capacity store clock).Undisturbed where
  toBookkept := .start listenSocket threads capacity store clock
  reads client here := by cases here
  calm := trivial

/-- An entry is handled up to its reading part, by cases on what the entry is and what the poll
has reported of it.
-/
theorem entry (undisturbed : loop.Undisturbed) {fd : Socket} {revents : Revents}
    {rest : List (Socket × Revents)} (first : loop.place = .entries ((fd, revents) :: rest))
    (idle : loop.server.position = .idle) {accepted : Option (Socket × Bytes)}
    (free : loop.Free accepted) (received : Option Bytes)
    : (loop.handleEntry fd revents rest accepted received).Undisturbed := by
  refine ⟨undisturbed.toBookkept.entry first free received, ?_, ?_⟩
  · intro client here
    have nowhere := Server.client?_ne_of_idle idle client
    unfold handleEntry at here ⊢
    split at here
    · split at here
      · exact absurd here nowhere
      · rename_i opened ip
        split at here
        · have accepting := (position_acceptConnection opened ip loop).trans idle
          exact absurd here (Server.client?_ne_of_idle accepting client)
        · exact absurd here nowhere
    · rename_i other
      rw [if_neg other]
      split at here
      · exact absurd here nowhere
      · rename_i hung
        rw [if_neg hung]
        split at here
        · rename_i readable
          obtain rfl := client?_handleRead idle here
          rw [if_pos readable]
          exact ⟨_, _, rfl⟩
        · exact absurd here nowhere
  · have calm := undisturbed.calm
    rw [first] at calm
    have behind : Calm loop.server.pausedReads loop.pollFds (.entries rest) :=
      fun entry member => calm entry (List.mem_cons_of_mem _ member)
    unfold handleEntry
    split
    · split
      · exact behind
      · split
        · change ∀ entry ∈ rest, _ → _ ∉ (loop.acceptConnection _ _).server.pausedReads
          rw [pausedReads_acceptConnection]
          exact behind
        · exact behind
    · split
      · exact behind.mono (Finset.erase_subset _ _)
      · split
        · exact behind.mono (pausedReads_handleRead fd received loop)
        · exact behind

/-- Every turn keeps this, by cases on what it does. -/
theorem step (undisturbed : loop.Undisturbed) (reported : loop.Reports turn)
    (taken : loop.step turn = some next)
    : next.Undisturbed := by
  have bookkept := undisturbed.toBookkept.step taken
  have calm := undisturbed.calm
  have nowhere (idle : loop.server.position = .idle) (client : Socket)
      (here : loop.server.position.client? = some client)
      : ∃ writable rest, next.place = .behindRead client writable rest :=
    absurd here (Server.client?_ne_of_idle idle client)
  cases takes_of_step taken with
  | drain => exact ⟨bookkept, nofun, trivial⟩
  | drained => exact ⟨bookkept, nofun, trivial⟩
  | @deliver result rest place drains =>
      refine ⟨bookkept, fun client here => ?_, ?_⟩
      · change (loop.server.deliver result rest).position.client? = some client at here
        unfold Server.deliver at here
        split at here <;> cases here
      · change Calm _ _ loop.place
        rw [place]
        trivial
  | @rebuild order tests idle once all =>
      refine ⟨bookkept, fun client here => ?_, ?_⟩
      · have resting := (Server.position_unpause loop.server).trans idle
        exact absurd here (Server.client?_ne_of_idle resting client)
      · intro pollFd member asked
        rcases List.mem_cons.mp member with rfl | others
        · intro paused
          exact bookkept.listening (Finmap.mem_keys.mpr (bookkept.tallied.among _ paused))
        · obtain ⟨client, -, rfl⟩ := List.mem_map.mp others
          exact of_decide_eq_true asked
  | quiet polls idle => exact ⟨bookkept, nowhere idle, trivial⟩
  | @polled reports polls idle each =>
      refine ⟨bookkept, nowhere idle, ?_⟩
      rw [polls] at calm
      intro entry member readable
      rw [List.zip_map_left] at member
      obtain ⟨⟨pollFd, revents⟩, listed, rfl⟩ := List.mem_map.mp member
      exact calm pollFd (List.of_mem_zip listed).1 (reported _ listed readable)
  | entry first idle free fits => exact undisturbed.entry first idle free _
  | @write client writable rest sent place idle fits =>
      rw [place] at calm
      cases writable with
      | false => exact ⟨bookkept, nowhere idle, calm⟩
      | true =>
          refine ⟨bookkept, fun other here => ?_, ?_⟩
          · have resting := (position_handleWrite client sent loop).trans idle
            exact absurd here (Server.client?_ne_of_idle resting other)
          · have behind : Calm loop.server.pausedReads loop.pollFds (.entries rest) := calm
            exact behind.mono (pausedReads_handleWrite client sent loop)
  | next place idle => exact ⟨bookkept, nowhere idle, trivial⟩
  | @turn action server within moved =>
      refine ⟨bookkept, fun client here => ?_, ?_⟩
      · exact undisturbed.reads client (Server.client?_of_free within moved here)
      · rcases Server.pausedReads_of_free within moved with fewer | ⟨client, here, paused⟩
        · exact calm.mono fewer
        · -- the read loop is behind the entry of the connection that it pauses
          obtain ⟨writable, rest, place⟩ := undisturbed.reads client here
          have placed := undisturbed.placed
          change Calm server.pausedReads loop.pollFds loop.place
          rw [place] at calm placed ⊢
          intro entry member readable
          rw [paused, Finset.mem_insert]
          rintro (rfl | before)
          · exact placed.2 (List.mem_map_of_mem member)
          · exact calm entry member readable before

end Undisturbed

-----------------------------------------------------------------------------------------
-- The turns of the server
-----------------------------------------------------------------------------------------

/-- A change of the loop is a turn of the server, or leaves it as it is. -/
def Matched (loop next : EventLoop) : Prop :=
  next.server = loop.server ∨ ∃ action, loop.server.step action = some next.server

theorem Matched.disconnect {client : Socket} (idle : loop.server.position = .idle)
    (open' : client ∈ loop.server.connections)
    : loop.Matched (loop.disconnect client) :=
  .inr ⟨.hangup client, by simp [Server.step, idle, open', EventLoop.disconnect]⟩

theorem Matched.accept {client : Socket} (idle : loop.server.position = .idle)
    (closed : client ∉ loop.server.connections) (ip : Bytes)
    : loop.Matched (loop.acceptConnection client ip) := by
  unfold acceptConnection
  split
  · exact .inl rfl
  · exact .inr ⟨.accept client ip, by simp [Server.step, idle, closed]⟩

/-- What is read comes from an open connection that is not paused. -/
theorem Matched.read {client : Socket} {received : Option Bytes}
    (idle : loop.server.position = .idle) (open' : client ∈ loop.server.connections)
    (calm : client ∉ loop.server.pausedReads)
    (fits : ∀ chunk ∈ received, 1 ≤ chunk.length ∧ chunk.length ≤ 4096)
    : loop.Matched (loop.handleRead client received) := by
  unfold handleRead
  cases received with
  | none => exact .disconnect idle open'
  | some chunk =>
      cases found : loop.server.connections.lookup client with
      | none => exact .inl rfl
      | some connection =>
          have filled := fits chunk rfl
          exact .inr ⟨.recv client (some chunk), by simp [Server.step, idle, found, calm, filled]⟩

theorem Matched.write {client : Socket} {sent : Option ℕ} (idle : loop.server.position = .idle)
    (fits
      : ∀ count ∈ sent,
          ∀ connection ∈ loop.server.connections.lookup client,
            count ≤ connection.writeBuffer.length)
    : loop.Matched (loop.handleWrite client sent) := by
  unfold handleWrite
  cases found : loop.server.connections.lookup client with
  | none => exact .inl rfl
  | some connection =>
      dsimp only
      split
      · exact .disconnect idle (Finmap.mem_of_lookup_eq_some found)
      · have within : (sent.all fun count => count ≤ connection.writeBuffer.length) = true := by
          simpa [Option.all_eq_true] using fun count taken => fits count taken connection found
        refine .inr ⟨.write client sent, ?_⟩
        simp only [Server.step, idle, found, within, if_true]

/-- Each turn is one of the server or changes nothing in it, by cases on what it does. A
connection whose `recv` or `send` fails is closed as one that has hung up.
-/
theorem Undisturbed.matched (undisturbed : loop.Undisturbed)
    (taken : loop.step turn = some next)
    : loop.Matched next := by
  have calm := undisturbed.calm
  have placed := undisturbed.placed
  cases takes_of_step taken with
  | drain top idle => exact .inr ⟨.drain, by simp [Server.step, idle]⟩
  | drained place drains => exact .inr ⟨.deliver, by simp [Server.step, drains]⟩
  | deliver place drains => exact .inr ⟨.deliver, by simp [Server.step, drains]⟩
  | rebuild tests idle => exact .inr ⟨.unpause, by simp [Server.step, idle, rebuildPollSet]⟩
  | quiet | polled | next => exact .inl rfl
  | turn within moved => exact .inr ⟨_, moved⟩
  | @entry fd revents rest accepted received first idle free fits =>
      rw [first] at calm placed
      obtain ⟨known, -, -⟩ := placed.first
      unfold handleEntry
      split
      · cases accepted with
        | none => exact .inl rfl
        | some opened =>
            dsimp only
            split
            · exact Matched.accept idle (free opened.1 rfl).1 opened.2
            · exact .inl rfl
      · rename_i other
        have open' : fd ∈ loop.server.connections :=
          Finmap.mem_keys.mp (known.resolve_left other)
        split
        · exact Matched.disconnect idle open'
        · split
          · rename_i readable
            exact Matched.read idle open' (calm _ List.mem_cons_self readable) fits
          · exact .inl rfl
  | @write client writable rest sent place idle fits =>
      cases writable with
      | false => exact .inl rfl
      | true => exact Matched.write idle fits

/-- A run of the loop in which the poll only reports what it was asked for is a run of the server
with one turn for each turn of the loop, or none: what holds of every run of the server holds of
the loop.
-/
theorem exists_server_run {listenSocket : Socket} {threads capacity : ℕ} {store : LoggedStore}
    {clock : Int} {steps : List (EventLoop × LoopTurn)}
    (run
      : TransitionSystem.Run step (start listenSocket threads capacity store clock) steps loop)
    (reported : TransitionSystem.Along Reports steps)
    : ∃ turns,
        TransitionSystem.Run Server.step (.startWith threads capacity store clock) turns
          loop.server :=
  run.simulates EventLoop.server (fun undisturbed reported taken => undisturbed.step reported taken)
    (fun undisturbed _ taken => undisturbed.matched taken) reported
    (Undisturbed.start listenSocket threads capacity store clock)

end EventLoop

end InMemoryDB
