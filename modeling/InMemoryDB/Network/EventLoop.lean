import InMemoryDB.Library.Leases
import InMemoryDB.Network.ReactorLoop

/-! The main loop of the reactor as it goes through its poll array: it calls its handlers on
whatever the array lists, and the handlers look for themselves whether the connection is there.
-/

namespace InMemoryDB

/-- An entry of the poll array, with the events that it asks for. -/
structure PollFd where
  fd : Socket
  readable : Bool
  writable : Bool

/-- The events that the poll reports of an entry. An error counts as a hangup. -/
structure Revents where
  hangup : Bool
  readable : Bool
  writable : Bool

/-- Where the loop is: at the top, in `drain_completion_queue`, in front of the test of the queue,
in front of the poll, at an entry of the array, or behind the reading part of an entry.
-/
inductive LoopPlace where
  | top
  | draining
  | testing
  | polling
  | entries (rest : List (Socket × Revents))
  | behindRead (client : Socket) (writable : Bool) (rest : List (Socket × Revents))

/-- The server with its listening socket, its poll array and its place in the loop. For proofs
there are the connections that were accepted and the calls of `disconnect`.
-/
structure EventLoop where
  server : Server
  listenSocket : Socket
  pollFds : List PollFd := []
  place : LoopPlace := .top
  leases : List (Leases.Event Socket) := []

/-- What happens next. `rebuild` gets the order in which the map of the connections is gone
through, and `poll` what is reported of each entry, or nothing when it fails or times out. An
entry gets what `accept` or `recv` returns if it comes to that, `write` what `send` returns.
-/
inductive LoopTurn where
  | drain
  | deliver
  | rebuild (order : List Socket)
  | poll (reported : Option (List Revents))
  | entry (accepted : Option (Socket × Bytes)) (received : Option Bytes)
  | write (sent : Option ℕ)
  | next
  | turn (action : Action)

namespace EventLoop

def start (listenSocket : Socket) (threads capacity : ℕ) (store : LoggedStore) (clock : Int)
    : EventLoop :=
  { server := .startWith threads capacity store clock, listenSocket := listenSocket }

-----------------------------------------------------------------------------------------
-- The handlers
-----------------------------------------------------------------------------------------

def acceptConnection (client : Socket) (ip : Bytes) (loop : EventLoop) : EventLoop :=
  if loop.server.totalConnections ≥ maxConnections then loop
  else
    { loop with
      server := loop.server.acceptConnection client ip
      leases := loop.leases ++ [.opened client] }

def disconnect (client : Socket) (loop : EventLoop) : EventLoop :=
  { loop with
    server := loop.server.disconnect client
    leases := loop.leases ++ [.closed client] }

/-- `recv` comes first, and a failure disconnects without a look at the map. -/
def handleRead (client : Socket) (received : Option Bytes) (loop : EventLoop) : EventLoop :=
  match received with
  | none => loop.disconnect client
  | some chunk =>
      match loop.server.connections.lookup client with
      | none => loop
      | some connection => { loop with server := loop.server.beginRead client chunk connection }

def handleWrite (client : Socket) (sent : Option ℕ) (loop : EventLoop) : EventLoop :=
  match loop.server.connections.lookup client with
  | none => loop
  | some connection =>
      if sent.isNone ∧ connection.writeBuffer ≠ [] then loop.disconnect client
      else { loop with server := loop.server.handleWrite client sent connection }

@[simp] theorem listenSocket_acceptConnection (client : Socket) (ip : Bytes) (loop : EventLoop)
    : (loop.acceptConnection client ip).listenSocket = loop.listenSocket := by
  unfold acceptConnection
  split <;> rfl

@[simp] theorem listenSocket_handleRead (client : Socket) (received : Option Bytes)
    (loop : EventLoop)
    : (loop.handleRead client received).listenSocket = loop.listenSocket := by
  unfold handleRead
  split
  · rfl
  · split <;> rfl

@[simp] theorem listenSocket_handleWrite (client : Socket) (sent : Option ℕ) (loop : EventLoop)
    : (loop.handleWrite client sent).listenSocket = loop.listenSocket := by
  unfold handleWrite
  split
  · rfl
  · split <;> rfl

/-- The listening socket comes first, then every connection in the order of the map. -/
def rebuildPollSet (order : List Socket) (loop : EventLoop) : EventLoop :=
  { loop with
    pollFds :=
      ⟨loop.listenSocket, true, false⟩
      :: order.map fun client =>
          ⟨client, client ∉ loop.server.pausedReads,
            (loop.server.connections.lookup client).any fun connection =>
              connection.writePending⟩ }

/-- An entry up to its reading part. -/
def handleEntry (fd : Socket) (revents : Revents) (rest : List (Socket × Revents))
    (accepted : Option (Socket × Bytes)) (received : Option Bytes) (loop : EventLoop)
    : EventLoop :=
  if fd = loop.listenSocket then
    match accepted with
    | none => { loop with place := .entries rest }
    | some (client, ip) =>
        if revents.readable then { loop.acceptConnection client ip with place := .entries rest }
        else { loop with place := .entries rest }
  else if revents.hangup then { loop.disconnect fd with place := .entries rest }
  else if revents.readable then
    { loop.handleRead fd received with place := .behindRead fd revents.writable rest }
  else { loop with place := .behindRead fd revents.writable rest }

-----------------------------------------------------------------------------------------
-- Steps
-----------------------------------------------------------------------------------------

/-- The handles that `accept` can return: no other socket has them. -/
def Free (accepted : Option (Socket × Bytes)) (loop : EventLoop) : Prop :=
  ∀ client ∈ accepted.map Prod.fst,
    client ∉ loop.server.connections ∧ client ≠ loop.listenSocket

instance (accepted : Option (Socket × Bytes)) (loop : EventLoop)
    : Decidable (loop.Free accepted) :=
  inferInstanceAs (Decidable (∀ client ∈ accepted.map Prod.fst, _))

/-- The turns within `handle_read`, and those of the other threads. -/
def free : Action → Bool
  | .readLine | .process | .pop _ | .execute .. | .post _ | .sweep .. => true
  | .accept .. | .recv .. | .write .. | .hangup _ | .drain | .deliver | .unpause => false

/-- One turn, if the loop is where it can take it. -/
def step (loop : EventLoop) : LoopTurn → Option EventLoop
  | .drain =>
      match loop.place, loop.server.position with
      | .top, .idle => some { loop with server := loop.server.beginDrain, place := .draining }
      | _, _ => none
  | .deliver =>
      match loop.place, loop.server.position with
      | .draining, .draining [] =>
          some { loop with server := { loop.server with position := .idle }, place := .testing }
      | .draining, .draining (result :: rest) =>
          some { loop with server := loop.server.deliver result rest }
      | _, _ => none
  | .rebuild order =>
      match loop.place, loop.server.position with
      | .testing, .idle =>
          -- an unordered map is gone through in any order, and shows every key once
          if order.Nodup ∧ order.toFinset = loop.server.connections.keys then
            some
              { { loop with server := loop.server.unpause }.rebuildPollSet order with
                place := .polling }
          else none
      | _, _ => none
  | .poll reported =>
      match loop.place, loop.server.position with
      | .polling, .idle =>
          match reported with
          | none => some { loop with place := .top }
          | some reported =>
              if reported.length = loop.pollFds.length then
                some
                  { loop with
                    place := .entries ((loop.pollFds.map PollFd.fd).zip reported) }
              else none
      | _, _ => none
  | .entry accepted received =>
      match loop.place, loop.server.position with
      | .entries ((fd, revents) :: rest), .idle =>
          if loop.Free accepted
              ∧ received.all fun chunk => 1 ≤ chunk.length ∧ chunk.length ≤ 4096 then
            some (loop.handleEntry fd revents rest accepted received)
          else none
      | _, _ => none
  | .write sent =>
      match loop.place, loop.server.position with
      | .behindRead client writable rest, .idle =>
          if sent.all fun count =>
              (loop.server.connections.lookup client).all fun connection =>
                count ≤ connection.writeBuffer.length then
            some
              { (if writable then loop.handleWrite client sent else loop) with
                place := .entries rest }
          else none
      | _, _ => none
  | .next =>
      match loop.place, loop.server.position with
      | .entries [], .idle => some { loop with place := .top }
      | _, _ => none
  | .turn action =>
      if free action then
        (loop.server.step action).map fun server => { loop with server := server }
      else none

/-- All that a turn can do. -/
inductive Takes (loop : EventLoop) : LoopTurn → EventLoop → Prop
  | drain (top : loop.place = .top) (idle : loop.server.position = .idle)
    : Takes loop .drain { loop with server := loop.server.beginDrain, place := .draining }
  | drained (place : loop.place = .draining) (drains : loop.server.position = .draining [])
    : Takes loop .deliver
        { loop with server := { loop.server with position := .idle }, place := .testing }
  | deliver {result rest} (place : loop.place = .draining)
    (drains : loop.server.position = .draining (result :: rest))
    : Takes loop .deliver { loop with server := loop.server.deliver result rest }
  | rebuild {order} (tests : loop.place = .testing) (idle : loop.server.position = .idle)
    (once : order.Nodup) (all : order.toFinset = loop.server.connections.keys)
    : Takes loop (.rebuild order)
        { { loop with server := loop.server.unpause }.rebuildPollSet order with
          place := .polling }
  | quiet (polls : loop.place = .polling) (idle : loop.server.position = .idle)
    : Takes loop (.poll none) { loop with place := .top }
  | polled {reported} (polls : loop.place = .polling) (idle : loop.server.position = .idle)
    (each : reported.length = loop.pollFds.length)
    : Takes loop (.poll (some reported))
        { loop with place := .entries ((loop.pollFds.map PollFd.fd).zip reported) }
  | entry {fd revents rest accepted received}
    (first : loop.place = .entries ((fd, revents) :: rest))
    (idle : loop.server.position = .idle) (free : loop.Free accepted)
    (fits : ∀ chunk ∈ received, 1 ≤ chunk.length ∧ chunk.length ≤ 4096)
    : Takes loop (.entry accepted received) (loop.handleEntry fd revents rest accepted received)
  | write {client writable rest sent} (place : loop.place = .behindRead client writable rest)
    (idle : loop.server.position = .idle)
    (fits
      : ∀ count ∈ sent,
          ∀ connection ∈ loop.server.connections.lookup client,
            count ≤ connection.writeBuffer.length)
    : Takes loop (.write sent)
        { (if writable then loop.handleWrite client sent else loop) with place := .entries rest }
  | next (place : loop.place = .entries []) (idle : loop.server.position = .idle)
    : Takes loop .next { loop with place := .top }
  | turn {action server} (within : free action = true)
    (moved : loop.server.step action = some server)
    : Takes loop (.turn action) { loop with server := server }

/-- A step is one of these, by cases on the turn and the place of the loop. -/
theorem takes_of_step {loop next : EventLoop} {turn : LoopTurn}
    (taken : loop.step turn = some next)
    : loop.Takes turn next := by
  cases turn with
  | drain =>
      simp only [step] at taken
      split at taken
      · rename_i top idle
        obtain rfl := Option.some.inj taken
        exact .drain top idle
      · cases taken
  | deliver =>
      simp only [step] at taken
      split at taken
      · rename_i place drains
        obtain rfl := Option.some.inj taken
        exact .drained place drains
      · rename_i place drains
        obtain rfl := Option.some.inj taken
        exact .deliver place drains
      · cases taken
  | rebuild order =>
      simp only [step] at taken
      split at taken
      · rename_i tests idle
        split at taken
        · rename_i shown
          obtain rfl := Option.some.inj taken
          exact .rebuild tests idle shown.1 shown.2
        · cases taken
      · cases taken
  | poll reported =>
      simp only [step] at taken
      split at taken
      · rename_i polls idle
        split at taken
        · obtain rfl := Option.some.inj taken
          exact .quiet polls idle
        · split at taken
          · rename_i each
            obtain rfl := Option.some.inj taken
            exact .polled polls idle each
          · cases taken
      · cases taken
  | entry accepted received =>
      simp only [step] at taken
      split at taken
      · rename_i first idle
        split at taken
        · rename_i met
          obtain rfl := Option.some.inj taken
          refine .entry first idle met.1 ?_
          simpa [Option.all_eq_true] using met.2
        · cases taken
      · cases taken
  | write sent =>
      simp only [step] at taken
      split at taken
      · rename_i place idle
        split at taken
        · rename_i fits
          obtain rfl := Option.some.inj taken
          refine .write place idle ?_
          simpa [Option.all_eq_true] using fits
        · cases taken
      · cases taken
  | next =>
      simp only [step] at taken
      split at taken
      · rename_i place idle
        obtain rfl := Option.some.inj taken
        exact .next place idle
      · cases taken
  | turn action =>
      simp only [step] at taken
      split at taken
      · rename_i within
        obtain ⟨server, moved, rfl⟩ := Option.map_eq_some_iff.mp taken
        exact .turn within moved
      · cases taken

end EventLoop

end InMemoryDB
