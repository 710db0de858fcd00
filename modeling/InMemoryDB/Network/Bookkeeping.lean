import InMemoryDB.Network.EventLoop

/-! What the reactor knows of its connections: their number, which of them are paused, what it has
closed, and what is in its poll array.
-/

namespace InMemoryDB

namespace Server

variable {server next : Server} {client : Socket} {connection changed : Connection}

/-- The connections are counted right, are not too many, and only open ones are paused. -/
structure Tallied (server : Server) : Prop where
  counted : server.totalConnections = server.connections.keys.card
  bounded : server.totalConnections ≤ maxConnections
  among : server.PausedOpen

/-- The same handles are open, and as many are counted. -/
structure SameHandles (server next : Server) : Prop where
  keys : next.connections.keys = server.connections.keys
  total : next.totalConnections = server.totalConnections

theorem sameHandles_insert (found : server.connections.lookup client = some connection)
    (moved : next.connections = server.connections.insert client changed)
    (total : next.totalConnections = server.totalConnections)
    : server.SameHandles next := by
  refine ⟨?_, total⟩
  ext other
  have open' : client ∈ server.connections := Finmap.mem_of_lookup_eq_some found
  rw [moved, Finmap.mem_keys, Finmap.mem_keys, Finmap.mem_insert]
  exact ⟨fun either => either.elim (fun same => same ▸ open') id, .inr⟩

theorem sameHandles_readLine (found : server.connections.lookup client = some connection)
    : server.SameHandles (server.readLine client connection) := by
  unfold readLine
  split
  · exact ⟨rfl, rfl⟩
  · exact sameHandles_insert found rfl rfl
  · exact sameHandles_insert found rfl rfl
  · exact sameHandles_insert found rfl rfl

theorem sameHandles_deliver (result : TaskResult) (rest : List TaskResult)
    : server.SameHandles (server.deliver result rest) := by
  unfold deliver
  split
  · exact ⟨rfl, rfl⟩
  · rename_i connection found
    exact sameHandles_insert found rfl rfl

/-- `handle_write` closes nothing unless `send` fails on what there is to write. -/
theorem sameHandles_handleWrite {sent : Option ℕ}
    (found : server.connections.lookup client = some connection)
    (kept : ¬ (sent.isNone ∧ connection.writeBuffer ≠ []))
    : server.SameHandles (server.handleWrite client sent connection)
      ∧ (server.handleWrite client sent connection).pausedReads = server.pausedReads := by
  cases sent with
  | none =>
      have empty : connection.writeBuffer = [] := by simpa using kept
      rw [handleWrite, if_pos empty]
      exact ⟨sameHandles_insert found rfl rfl, rfl⟩
  | some count => exact ⟨sameHandles_insert found rfl rfl, rfl⟩

theorem sameHandles_unpause (server : Server) : server.SameHandles server.unpause := by
  unfold unpause
  split <;> exact ⟨rfl, rfl⟩

/-- What such a turn leaves as it is. -/
structure Untouched (server next : Server) : Prop where
  connections : next.connections = server.connections
  total : next.totalConnections = server.totalConnections
  paused : next.pausedReads = server.pausedReads
  position : next.position = server.position

/-- A turn within `handle_read` goes on with its loop or calls the pipeline, and one of another
thread touches no connection; by cases on the turn.
-/
theorem free_cases {action : Action} (within : EventLoop.free action = true)
    (taken : server.step action = some next)
    : (∃ client connection,
          server.position = .reading client
          ∧ server.connections.lookup client = some connection
          ∧ next = server.readLine client connection)
      ∨ (∃ request, server.position = .processing request ∧ next = server.process request)
      ∨ server.Untouched next := by
  cases action with
  | readLine =>
      cases takes_of_step taken with
      | readLine reads found => exact .inl ⟨_, _, reads, found, rfl⟩
      | disconnected client idle => simp [step, idle] at taken
  | process =>
      cases takes_of_step taken with
      | process processes => exact .inr (.inl ⟨_, processes, rfl⟩)
      | disconnected client idle => simp [step, idle] at taken
  | pop worker =>
      simp only [step] at taken
      split at taken
      · cases taken
      · split at taken
        · obtain rfl := Option.some.inj taken
          exact .inr (.inr ⟨rfl, rfl, rfl, rfl⟩)
        · cases taken
  | execute worker now refusals =>
      simp only [step] at taken
      split at taken
      · cases taken
      · split at taken
        · obtain rfl := Option.some.inj taken
          exact .inr (.inr ⟨rfl, rfl, rfl, rfl⟩)
        · cases taken
  | post worker =>
      simp only [step] at taken
      split at taken
      · cases taken
      · obtain ⟨response, -, rfl⟩ := Option.map_eq_some_iff.mp taken
        exact .inr (.inr ⟨rfl, rfl, rfl, rfl⟩)
  | sweep now key =>
      simp only [step] at taken
      split at taken
      · obtain rfl := Option.some.inj taken
        exact .inr (.inr ⟨rfl, rfl, rfl, rfl⟩)
      · cases taken
  | accept | recv | write | hangup | drain | deliver | unpause => cases within

/-- So it opens and closes nothing. -/
theorem sameHandles_of_free {action : Action} (within : EventLoop.free action = true)
    (taken : server.step action = some next)
    : server.SameHandles next := by
  rcases free_cases within taken with ⟨client, connection, -, found, rfl⟩ | ⟨request, -, rfl⟩ | same
  · exact sameHandles_readLine found
  · exact ⟨rfl, rfl⟩
  · exact ⟨congrArg Finmap.keys same.connections, same.total⟩

namespace Tallied

theorem of_same (tallied : server.Tallied) (same : server.SameHandles next)
    (among : next.PausedOpen)
    : next.Tallied where
  counted := by rw [same.total, same.keys, tallied.counted]
  bounded := by rw [same.total]; exact tallied.bounded
  among := among

/-- Only an open connection may be paused on top of those that were. -/
theorem of_paused (tallied : server.Tallied) (same : server.SameHandles next)
    (paused : next.pausedReads ⊆ server.pausedReads)
    : next.Tallied := by
  refine tallied.of_same same fun client member => ?_
  rw [← Finmap.mem_keys, same.keys, Finmap.mem_keys]
  exact tallied.among client (paused member)

/-- A connection more is counted at a handle that was not open. -/
theorem accept (tallied : server.Tallied) (closed : client ∉ server.connections) (ip : Bytes)
    (room : ¬ server.totalConnections ≥ maxConnections)
    : (server.acceptConnection client ip).Tallied
      ∧ (server.acceptConnection client ip).connections.keys
        = insert client server.connections.keys := by
  have keys (connection : Connection)
      : (server.connections.insert client connection).keys
        = insert client server.connections.keys := by
    ext other
    simp [Finmap.mem_keys, Finmap.mem_insert]
  have fresh : client ∉ server.connections.keys := mt Finmap.mem_keys.mp closed
  unfold acceptConnection
  rw [if_neg room]
  refine ⟨⟨?_, ?_, ?_⟩, keys _⟩
  · change server.totalConnections + 1 = (server.connections.insert client _).keys.card
    rw [keys, Finset.card_insert_of_notMem fresh, tallied.counted]
  · exact not_le.mp room
  · exact fun other paused => Finmap.mem_insert.mpr (.inr (tallied.among other paused))

/-- A connection less is counted, as it was open. -/
theorem disconnect (tallied : server.Tallied) (open' : client ∈ server.connections)
    : (server.disconnect client).Tallied
      ∧ (server.disconnect client).connections.keys = server.connections.keys.erase client := by
  have member : client ∈ server.connections.keys := Finmap.mem_keys.mpr open'
  have some : 0 < server.connections.keys.card := Finset.card_pos.mpr ⟨client, member⟩
  have counted := tallied.counted
  have bounded := tallied.bounded
  have total : (server.disconnect client).totalConnections = server.totalConnections - 1 :=
    if_pos (by omega)
  have keys : (server.disconnect client).connections.keys = server.connections.keys.erase client :=
    Finmap.keys_erase ..
  refine ⟨⟨?_, ?_, ?_⟩, keys⟩
  · rw [total, keys, Finset.card_erase_of_mem member, counted]
  · omega
  · intro other paused
    obtain ⟨different, before⟩ := Finset.mem_erase.mp paused
    exact Finmap.mem_erase.mpr ⟨different, tallied.among other before⟩

end Tallied

end Server

namespace EventLoop

variable {loop next : EventLoop} {turn : LoopTurn}

/-- What is still to be handled of the poll array: the listening socket or open connections, each
once.
-/
structure Pending (listenSocket : Socket) (handles : Finset Socket)
    (rest : List (Socket × Revents))
    : Prop where
  once : (rest.map Prod.fst).Nodup
  open' : ∀ fd ∈ rest.map Prod.fst, fd = listenSocket ∨ fd ∈ handles

/-- The poll array as it is rebuilt: the listening socket, and behind it every open connection
once.
-/
def Polled (listenSocket : Socket) (handles : Finset Socket) (pollFds : List PollFd) : Prop :=
  ∃ order : List Socket,
    pollFds.map PollFd.fd = listenSocket :: order ∧ order.Nodup ∧ order.toFinset = handles

/-- What the place of the loop says about the poll array. -/
def Placed (listenSocket : Socket) (handles : Finset Socket) (pollFds : List PollFd)
    : LoopPlace → Prop
  | .top | .draining | .testing => True
  | .polling => Polled listenSocket handles pollFds
  | .entries rest => Pending listenSocket handles rest
  | .behindRead client _ rest =>
      Pending listenSocket handles rest ∧ client ∉ rest.map Prod.fst

namespace Pending

variable {listenSocket fd : Socket} {handles : Finset Socket} {revents : Revents}
  {rest : List (Socket × Revents)}

theorem mono (pending : Pending listenSocket handles rest) {more : Finset Socket}
    (within : handles ⊆ more)
    : Pending listenSocket more rest :=
  ⟨pending.once, fun fd member => (pending.open' fd member).imp_right fun known => within known⟩

/-- A handle that is closed behind its entry is not pending. -/
theorem erase (pending : Pending listenSocket handles rest) (absent : fd ∉ rest.map Prod.fst)
    : Pending listenSocket (handles.erase fd) rest := by
  refine ⟨pending.once, fun other member => (pending.open' other member).imp_right fun known => ?_⟩
  exact Finset.mem_erase.mpr ⟨fun same => absent (same ▸ member), known⟩

/-- So a handler of it that closes it or nothing leaves the others pending. -/
theorem of_handled (pending : Pending listenSocket handles rest)
    (absent : fd ∉ rest.map Prod.fst) {after : Finset Socket}
    (handled : after = handles ∨ after = handles.erase fd)
    : Pending listenSocket after rest := by
  rcases handled with rfl | rfl
  · exact pending
  · exact pending.erase absent

theorem first (pending : Pending listenSocket handles ((fd, revents) :: rest))
    : (fd = listenSocket ∨ fd ∈ handles)
      ∧ fd ∉ rest.map Prod.fst
      ∧ Pending listenSocket handles rest := by
  obtain ⟨absent, once⟩ := List.nodup_cons.mp pending.once
  exact ⟨pending.open' fd List.mem_cons_self, absent, once,
    fun other member => pending.open' other (List.mem_cons_of_mem _ member)⟩

end Pending

/-- The whole array is pending when the poll returns. -/
theorem Polled.pending {listenSocket : Socket} {handles : Finset Socket} {pollFds : List PollFd}
    (polled : Polled listenSocket handles pollFds) (closed : listenSocket ∉ handles)
    {reported : List Revents} (each : reported.length = pollFds.length)
    : Pending listenSocket handles ((pollFds.map PollFd.fd).zip reported) := by
  obtain ⟨order, listed, once, rfl⟩ := polled
  have fds : ((pollFds.map PollFd.fd).zip reported).map Prod.fst = listenSocket :: order := by
    rw [List.map_fst_zip (by simp [each]), listed]
  constructor
  · rw [fds]
    exact List.nodup_cons.mpr ⟨fun member => closed (List.mem_toFinset.mpr member), once⟩
  · intro fd member
    rw [fds] at member
    exact (List.mem_cons.mp member).imp_right List.mem_toFinset.mpr

/-- The books of the loop, whatever is in its poll array. -/
structure Books (loop : EventLoop) : Prop where
  tallied : loop.server.Tallied
  listening : loop.listenSocket ∉ loop.server.connections.keys
  leases : Leases.Consistent loop.server.connections.keys loop.leases

namespace Books

/-- Another place or poll array changes nothing in them. -/
theorem moved (books : loop.Books) {pollFds : List PollFd} {place : LoopPlace}
    : Books { loop with pollFds := pollFds, place := place } :=
  ⟨books.tallied, books.listening, books.leases⟩

theorem of_same (books : loop.Books) {server : Server} (tallied : server.Tallied)
    (same : loop.server.SameHandles server)
    : Books { loop with server := server } where
  tallied := tallied
  listening := same.keys ▸ books.listening
  leases := by
    change Leases.Consistent server.connections.keys loop.leases
    rw [same.keys]
    exact books.leases

/-- `accept` has returned a handle that no other socket has. -/
theorem accept (books : loop.Books) {client : Socket}
    (free : client ∉ loop.server.connections ∧ client ≠ loop.listenSocket) (ip : Bytes)
    : (loop.acceptConnection client ip).Books
      ∧ loop.server.connections.keys
        ⊆ (loop.acceptConnection client ip).server.connections.keys := by
  unfold acceptConnection
  split
  · exact ⟨books, Finset.Subset.refl _⟩
  · rename_i room
    obtain ⟨tallied, keys⟩ := books.tallied.accept free.1 ip room
    refine ⟨⟨tallied, ?_, ?_⟩, ?_⟩
    · change loop.listenSocket ∉ (loop.server.acceptConnection client ip).connections.keys
      rw [keys, Finset.mem_insert]
      exact not_or.mpr ⟨free.2.symm, books.listening⟩
    · change Leases.Consistent (loop.server.acceptConnection client ip).connections.keys _
      rw [keys]
      exact books.leases.opened client
    · change _ ⊆ (loop.server.acceptConnection client ip).connections.keys
      rw [keys]
      exact Finset.subset_insert _ _

/-- Only what is open is closed. -/
theorem disconnect (books : loop.Books) {client : Socket}
    (open' : client ∈ loop.server.connections)
    : (loop.disconnect client).Books
      ∧ (loop.disconnect client).server.connections.keys
        = loop.server.connections.keys.erase client := by
  obtain ⟨tallied, keys⟩ := books.tallied.disconnect open'
  refine ⟨⟨tallied, ?_, ?_⟩, keys⟩
  · change loop.listenSocket ∉ (loop.server.disconnect client).connections.keys
    rw [keys]
    exact fun member => books.listening (Finset.mem_of_mem_erase member)
  · change Leases.Consistent (loop.server.disconnect client).connections.keys _
    rw [keys]
    exact books.leases.closed (Finmap.mem_keys.mpr open')

/-- `handle_read` of an open connection closes it, or closes nothing. -/
theorem read (books : loop.Books) {client : Socket} (open' : client ∈ loop.server.connections)
    (received : Option Bytes)
    : (loop.handleRead client received).Books
      ∧ ((loop.handleRead client received).server.connections.keys
          = loop.server.connections.keys
        ∨ (loop.handleRead client received).server.connections.keys
          = loop.server.connections.keys.erase client) := by
  unfold handleRead
  cases received with
  | none =>
      obtain ⟨closed, keys⟩ := books.disconnect open'
      exact ⟨closed, .inr keys⟩
  | some chunk =>
      cases found : loop.server.connections.lookup client with
      | none => exact ⟨books, .inl rfl⟩
      | some connection =>
          have same : loop.server.SameHandles (loop.server.beginRead client chunk connection) :=
            Server.sameHandles_insert found rfl rfl
          have tallied := books.tallied.of_paused same (Finset.Subset.refl _)
          exact ⟨books.of_same tallied same, .inl same.keys⟩

/-- `handle_write` closes the connection, or nothing, as it does if it is not open any more. -/
theorem write (books : loop.Books) (client : Socket) (sent : Option ℕ)
    : (loop.handleWrite client sent).Books
      ∧ ((loop.handleWrite client sent).server.connections.keys
          = loop.server.connections.keys
        ∨ (loop.handleWrite client sent).server.connections.keys
          = loop.server.connections.keys.erase client) := by
  unfold handleWrite
  cases found : loop.server.connections.lookup client with
  | none => exact ⟨books, .inl rfl⟩
  | some connection =>
      dsimp only
      split
      · obtain ⟨closed, keys⟩ := books.disconnect (Finmap.mem_of_lookup_eq_some found)
        exact ⟨closed, .inr keys⟩
      · rename_i kept
        obtain ⟨same, paused⟩ := Server.sameHandles_handleWrite found kept
        exact ⟨books.of_same (books.tallied.of_paused same paused.subset) same, .inl same.keys⟩

end Books

/-- The books of the loop are in order, and so is its poll array. -/
structure Bookkept (loop : EventLoop) : Prop extends Books loop where
  placed : Placed loop.listenSocket loop.server.connections.keys loop.pollFds loop.place

namespace Bookkept

theorem start (listenSocket : Socket) (threads capacity : ℕ) (store : LoggedStore) (clock : Int)
    : (start listenSocket threads capacity store clock).Bookkept where
  tallied := ⟨rfl, Nat.zero_le _, fun client paused => by cases paused⟩
  listening := by simp [EventLoop.start, Server.startWith, Server.start]
  leases := Leases.Consistent.empty
  placed := trivial

/-- An entry is handled up to its reading part, by cases on what the entry is and what the poll
has reported of it.
-/
theorem entry (bookkept : loop.Bookkept) {fd : Socket} {revents : Revents}
    {rest : List (Socket × Revents)} (first : loop.place = .entries ((fd, revents) :: rest))
    {accepted : Option (Socket × Bytes)} (free : loop.Free accepted) (received : Option Bytes)
    : (loop.handleEntry fd revents rest accepted received).Bookkept := by
  have books := bookkept.toBooks
  have placed := bookkept.placed
  rw [first] at placed
  obtain ⟨known, absent, pending⟩ := placed.first
  unfold handleEntry
  split
  · cases accepted with
    | none =>
        dsimp only
        exact ⟨books.moved, pending⟩
    | some opened =>
        obtain ⟨client, ip⟩ := opened
        dsimp only
        split
        · obtain ⟨kept, more⟩ := books.accept (free client rfl) ip
          refine ⟨kept.moved, ?_⟩
          change Pending (loop.acceptConnection client ip).listenSocket _ rest
          rw [listenSocket_acceptConnection]
          exact pending.mono more
        · exact ⟨books.moved, pending⟩
  · rename_i other
    have open' : fd ∈ loop.server.connections :=
      Finmap.mem_keys.mp (known.resolve_left other)
    split
    · obtain ⟨closed, keys⟩ := books.disconnect open'
      refine ⟨closed.moved, ?_⟩
      change Pending loop.listenSocket (loop.disconnect fd).server.connections.keys rest
      rw [keys]
      exact pending.erase absent
    · split
      · obtain ⟨kept, keys⟩ := books.read open' received
        refine ⟨kept.moved, ?_, absent⟩
        change Pending (loop.handleRead fd received).listenSocket _ rest
        rw [listenSocket_handleRead]
        exact pending.of_handled absent keys
      · exact ⟨books.moved, pending, absent⟩

/-- Every turn keeps the books, by cases on what it does. -/
theorem step (bookkept : loop.Bookkept) (taken : loop.step turn = some next)
    : next.Bookkept := by
  have books := bookkept.toBooks
  have placed := bookkept.placed
  cases takes_of_step taken with
  | drain top idle =>
      have same : loop.server.SameHandles loop.server.beginDrain := ⟨rfl, rfl⟩
      have tallied := books.tallied.of_paused same (Finset.Subset.refl _)
      exact ⟨(books.of_same tallied same).moved, trivial⟩
  | drained place drains =>
      have same : loop.server.SameHandles { loop.server with position := .idle } := ⟨rfl, rfl⟩
      have tallied := books.tallied.of_paused same (Finset.Subset.refl _)
      exact ⟨(books.of_same tallied same).moved, trivial⟩
  | @deliver result rest place drains =>
      have same := loop.server.sameHandles_deliver result rest
      have delivered
          : loop.server.step .deliver = some (loop.server.deliver result rest) := by
        simp [Server.step, drains]
      have among := books.tallied.among.step delivered (by simp)
      refine ⟨books.of_same (books.tallied.of_same same among) same, ?_⟩
      change Placed _ _ _ loop.place
      rw [place]
      trivial
  | @rebuild order tests idle once all =>
      have same := loop.server.sameHandles_unpause
      have tallied := books.tallied.of_same same books.tallied.among.unpause
      refine ⟨(books.of_same tallied same).moved, order, ?_, once, ?_⟩
      · simp [rebuildPollSet, Function.comp_def]
      · rw [all]
        exact same.keys.symm
  | quiet => exact ⟨books.moved, trivial⟩
  | @polled reported polls idle each =>
      rw [polls] at placed
      exact ⟨books.moved, placed.pending books.listening each⟩
  | entry first idle free fits => exact bookkept.entry first free _
  | @write client writable rest sent place idle fits =>
      rw [place] at placed
      obtain ⟨pending, absent⟩ := placed
      cases writable with
      | false => exact ⟨books.moved, pending⟩
      | true =>
          obtain ⟨kept, keys⟩ := books.write client sent
          refine ⟨kept.moved, ?_⟩
          change Pending (loop.handleWrite client sent).listenSocket _ rest
          rw [listenSocket_handleWrite]
          exact pending.of_handled absent keys
  | next => exact ⟨books.moved, trivial⟩
  | @turn action server within moved =>
      have same := Server.sameHandles_of_free within moved
      have stays : action ≠ .unpause := by
        intro unpauses
        obtain rfl := unpauses
        cases within
      have among := books.tallied.among.step moved stays
      refine ⟨books.of_same (books.tallied.of_same same among) same, ?_⟩
      change Placed loop.listenSocket server.connections.keys loop.pollFds loop.place
      rw [same.keys]
      exact placed

end Bookkept

/-- At any time the connections are counted right and are not too many, only open ones are
paused, and none has been closed twice without having been accepted in between. In front of the
poll each has one entry in the poll array.
-/
theorem bookkeeping {listenSocket : Socket} {threads capacity : ℕ} {store : LoggedStore}
    {clock : Int} {steps : List (EventLoop × LoopTurn)}
    (run
      : TransitionSystem.Run step (start listenSocket threads capacity store clock) steps loop)
    : loop.server.totalConnections = loop.server.connections.keys.card
      ∧ loop.server.totalConnections ≤ maxConnections
      ∧ (∀ client ∈ loop.server.pausedReads, client ∈ loop.server.connections)
      ∧ Leases.Alternates loop.leases
      ∧ (loop.place = .polling
        → ∀ client ∈ loop.server.connections, (loop.pollFds.map PollFd.fd).count client = 1) := by
  have bookkept : loop.Bookkept :=
    run.preserves (fun bookkept taken => bookkept.step taken)
      (Bookkept.start listenSocket threads capacity store clock)
  obtain ⟨counted, bounded, among⟩ := bookkept.tallied
  refine ⟨counted, bounded, among, bookkept.leases.alternates, fun polls client open' => ?_⟩
  have placed := bookkept.placed
  rw [polls] at placed
  obtain ⟨order, listed, once, shown⟩ := placed
  have member : client ∈ order := by
    rw [← List.mem_toFinset, shown]
    exact Finmap.mem_keys.mpr open'
  have other : loop.listenSocket ≠ client := by
    rintro rfl
    exact bookkept.listening (Finmap.mem_keys.mpr open')
  rw [listed, List.count_cons_of_ne other]
  exact List.count_eq_one_of_mem once member

/-- A connection with something to read and to write in one round: `recv` fails and closes it,
and the writing part does not find it any more. Then its handle is accepted again.
-/
theorem bookkeeping_reopened
    : ∃ steps loop,
        TransitionSystem.Run step (start 3 2 10 (.empty 1024 0) 0) steps loop
        ∧ loop.leases = [.opened 5, .closed 5, .opened 5]
        ∧ loop.server.totalConnections = 1
        ∧ (loop.pollFds.map PollFd.fd).count 5 = 1 := by
  have traced
      : TransitionSystem.trace step (start 3 2 10 (.empty 1024 0) 0)
          [.drain, .deliver, .rebuild [], .poll (some [⟨false, true, false⟩]),
            .entry (some (5, [])) none, .next,
            .drain, .deliver, .rebuild [5],
            .poll (some [⟨false, true, false⟩, ⟨false, true, true⟩]),
            .entry none none, .entry none none, .write none, .next,
            .drain, .deliver, .rebuild [], .poll (some [⟨false, true, false⟩]),
            .entry (some (5, [])) none, .next, .drain, .deliver, .rebuild [5]]
        = some _ := rfl
  have run := TransitionSystem.run_of_trace traced
  obtain ⟨-, -, -, -, listed⟩ := bookkeeping run
  exact ⟨_, _, run, rfl, rfl, listed rfl 5 (by decide)⟩

end EventLoop

end InMemoryDB
