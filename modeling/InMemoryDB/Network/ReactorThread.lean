import InMemoryDB.Network.RoundLength

/-! The reactor from its start to its end: `stop` only clears a flag, and the loop ends when it next
looks at it. It closes what is open then.
-/

namespace InMemoryDB

/-- The thread that runs `start`, behind the creation of its sockets. -/
structure ReactorThread where
  loop : EventLoop
  running : Bool := true
  ended : Bool := false

inductive ReactorTurn where
  | turn (turn : LoopTurn)
  | stop
  | leave (order : List Socket)

namespace ReactorThread

def start (listenSocket : Socket) (threads capacity : ℕ) (store : LoggedStore) (clock : Int)
    : ReactorThread :=
  { loop := .start listenSocket threads capacity store clock }

/-- Behind the loop every connection is closed, in the order of the map, and the map is cleared. -/
def leave (order : List Socket) (thread : ReactorThread) : ReactorThread :=
  { thread with
    loop :=
      { thread.loop with
        server := { thread.loop.server with connections := ∅ }
        leases := thread.loop.leases ++ order.map .closed }
    ended := true }

/-- The loop may take the turn. It begins a new round only if it is to run. -/
def allows (thread : ReactorThread) : LoopTurn → Bool
  | .drain => thread.running
  | _ => true

def step (thread : ReactorThread) : ReactorTurn → Option ReactorThread
  | .turn turn =>
      if thread.allows turn then
        (thread.loop.step turn).map fun loop => { thread with loop := loop }
      else none
  | .stop => some { thread with running := false }
  | .leave order =>
      match thread.loop.place, thread.loop.server.position with
      | .top, .idle =>
          if (thread.running = false ∧ thread.ended = false)
              ∧ order.Nodup
              ∧ order.toFinset = thread.loop.server.connections.keys then
            some (thread.leave order)
          else none
      | _, _ => none

end ReactorThread

/-- The turns of the reactor. `stop` is called by another thread. -/
def ReactorTurn.Own : ReactorTurn → Bool
  | .turn loopTurn => loopTurn.Own
  | .leave _ => true
  | .stop => false

namespace EventLoop

variable {loop next : EventLoop} {turn : LoopTurn}

-----------------------------------------------------------------------------------------
-- What a turn opens and closes
-----------------------------------------------------------------------------------------

/-- The handles that are open, and the log of what was opened and closed. -/
def LeaseMoves (loop next : EventLoop) : Prop :=
  Leases.Moves loop.server.connections.keys loop.leases next.server.connections.keys next.leases

theorem leaseMoves_of_same (keys : next.server.connections.keys = loop.server.connections.keys)
    (leases : next.leases = loop.leases)
    : loop.LeaseMoves next := by
  rw [LeaseMoves, keys, leases]
  exact .stay

theorem leaseMoves_disconnect {client : Socket} (open' : client ∈ loop.server.connections)
    : loop.LeaseMoves (loop.disconnect client) := by
  have keys
      : (loop.disconnect client).server.connections.keys
        = loop.server.connections.keys.erase client :=
    Finmap.keys_erase ..
  rw [LeaseMoves, keys]
  exact .closed (Finmap.mem_keys.mpr open')

theorem leaseMoves_acceptConnection {client : Socket} (closed : client ∉ loop.server.connections)
    (ip : Bytes)
    : loop.LeaseMoves (loop.acceptConnection client ip) := by
  unfold acceptConnection
  split
  · exact .stay
  · rename_i room
    have keys
        : (loop.server.acceptConnection client ip).connections.keys
          = insert client loop.server.connections.keys := by
      rw [Server.acceptConnection, if_neg room]
      ext other
      simp [Server.putConnection, Finmap.mem_keys, Finmap.mem_insert]
    change Leases.Moves _ _ (loop.server.acceptConnection client ip).connections.keys _
    rw [keys]
    exact .opened (mt Finmap.mem_keys.mp closed)

theorem leaseMoves_handleRead {client : Socket} (open' : client ∈ loop.server.connections)
    (received : Option Bytes)
    : loop.LeaseMoves (loop.handleRead client received) := by
  unfold handleRead
  cases received with
  | none => exact leaseMoves_disconnect open'
  | some chunk =>
      cases found : loop.server.connections.lookup client with
      | none => exact .stay
      | some connection =>
          have same : loop.server.SameHandles (loop.server.beginRead client chunk connection) :=
            Server.sameHandles_insert found rfl rfl
          exact leaseMoves_of_same same.keys rfl

theorem leaseMoves_handleWrite (client : Socket) (sent : Option ℕ)
    : loop.LeaseMoves (loop.handleWrite client sent) := by
  unfold handleWrite
  cases found : loop.server.connections.lookup client with
  | none => exact .stay
  | some connection =>
      dsimp only
      split
      · exact leaseMoves_disconnect (Finmap.mem_of_lookup_eq_some found)
      · rename_i kept
        exact leaseMoves_of_same (Server.sameHandles_handleWrite found kept).1.keys rfl

/-- A turn opens or closes one handle at most, by cases on the turn. -/
theorem Bookkept.leaseMoves (bookkept : loop.Bookkept) (taken : loop.step turn = some next)
    : loop.LeaseMoves next := by
  cases takes_of_step taken with
  | drain | drained | quiet | polled | next => exact .stay
  | @deliver result rest =>
      exact leaseMoves_of_same (loop.server.sameHandles_deliver result rest).keys rfl
  | rebuild => exact leaseMoves_of_same loop.server.sameHandles_unpause.keys rfl
  | @entry fd revents rest accepted received first idle free fits =>
      have placed := bookkept.placed
      rw [first] at placed
      obtain ⟨known, -, -⟩ := placed.first
      have open' (other : fd ≠ loop.listenSocket) : fd ∈ loop.server.connections :=
        Finmap.mem_keys.mp (known.resolve_left other)
      have handled := loop.handled_handleEntry fd revents rest accepted received
      generalize loop.handleEntry fd revents rest accepted received = next at handled
      cases handled with
      | listened | silent => exact .stay
      | @accepted client ip listening returned =>
          exact leaseMoves_acceptConnection (free client returned).1 ip
      | hungUp other => exact leaseMoves_disconnect (open' other)
      | read other => exact leaseMoves_handleRead (open' other) received
  | @write client writable rest sent =>
      cases writable with
      | false => exact .stay
      | true => exact leaseMoves_handleWrite client sent
  | turn within moved => exact leaseMoves_of_same (Server.sameHandles_of_free within moved).keys rfl

end EventLoop

namespace ReactorThread

variable {thread next : ReactorThread} {turn : ReactorTurn}

/-- All that a turn can do. -/
inductive Takes (thread : ReactorThread) : ReactorTurn → ReactorThread → Prop
  | turn {turn loop} (allowed : thread.allows turn = true)
    (moved : thread.loop.step turn = some loop)
    : Takes thread (.turn turn) { thread with loop := loop }
  | stop : Takes thread .stop { thread with running := false }
  | leave {order} (top : thread.loop.place = .top) (idle : thread.loop.server.position = .idle)
    (stopped : thread.running = false) (goesOn : thread.ended = false) (once : order.Nodup)
    (all : order.toFinset = thread.loop.server.connections.keys)
    : Takes thread (.leave order) (thread.leave order)

/-- A step is one of these, by cases on the turn. -/
theorem takes_of_step (taken : thread.step turn = some next) : thread.Takes turn next := by
  cases turn with
  | turn turn =>
      simp only [step] at taken
      split at taken
      · rename_i allowed
        obtain ⟨loop, moved, rfl⟩ := Option.map_eq_some_iff.mp taken
        exact .turn allowed moved
      · cases taken
  | stop =>
      obtain rfl := Option.some.inj taken
      exact .stop
  | leave order =>
      simp only [step] at taken
      split at taken
      · rename_i top idle
        split at taken
        · rename_i met
          obtain rfl := Option.some.inj taken
          exact .leave top idle met.1.1 met.1.2 met.2.1 met.2.2
        · cases taken
      · cases taken

/-- A new round is not begun by a thread that is to stop. -/
theorem ne_drain_of_allows {turn : LoopTurn} (allowed : thread.allows turn = true)
    (stopped : thread.running = false)
    : turn ≠ .drain := by
  intro drains
  subst drains
  exact absurd (stopped.symm.trans allowed) Bool.false_ne_true

/-- The reactor is where it can go on, and the books are in order until it has ended. Then nothing
is open any more.
-/
structure Sound (thread : ReactorThread) : Prop where
  settled : thread.loop.Settled
  kept : Leases.Kept thread.loop.server.connections.keys thread.loop.leases
  bookkept : thread.ended = false → thread.loop.Bookkept
  finished
    : thread.ended = true
      → thread.running = false
        ∧ thread.loop.place = .top
        ∧ thread.loop.server.connections = ∅

namespace Sound

theorem start (listenSocket : Socket) (threads capacity : ℕ) (store : LoggedStore) (clock : Int)
    : (start listenSocket threads capacity store clock).Sound where
  settled := rfl
  kept := .empty
  bookkept _ := .start listenSocket threads capacity store clock
  finished ended := by cases ended

/-- Every turn keeps this, by cases on what it does. -/
theorem step (sound : thread.Sound) (taken : thread.step turn = some next) : next.Sound := by
  cases takes_of_step taken with
  | @turn turn loop allowed moved =>
      have settled := sound.settled.step moved
      cases ended : thread.ended with
      | false =>
          have bookkept := sound.bookkept ended
          refine ⟨settled, sound.kept.moves (bookkept.leaseMoves moved), ?_, ?_⟩
          · exact fun _ => bookkept.step moved
          · exact fun finished => absurd finished Bool.false_ne_true
      | true =>
          obtain ⟨stopped, top, none⟩ := sound.finished ended
          have idle := sound.settled
          simp only [EventLoop.Settled, top] at idle
          obtain ⟨same, place, leases⟩ :=
            EventLoop.untouched_of_top top idle (ne_drain_of_allows allowed stopped) moved
          refine ⟨settled, ?_, ?_, fun _ => ⟨stopped, place, same.connections.trans none⟩⟩
          · change Leases.Kept loop.server.connections.keys loop.leases
            rw [same.connections, leases]
            exact sound.kept
          · exact fun goesOn => absurd goesOn.symm Bool.false_ne_true
  | stop =>
      refine ⟨sound.settled, sound.kept, sound.bookkept, ?_⟩
      exact fun ended => ⟨rfl, (sound.finished ended).2⟩
  | @leave order top idle stopped goesOn once all =>
      refine ⟨?_, ?_, fun goesOn => absurd goesOn.symm Bool.false_ne_true, ?_⟩
      · simp only [EventLoop.Settled, ReactorThread.leave, top]
        exact idle
      · have kept := sound.kept
        rw [← all] at kept
        exact kept.closeAll once
      · exact fun _ => ⟨stopped, top, rfl⟩

end Sound

/-- A bound for the turns that the reactor still takes when it is to stop. -/
def left (thread : ReactorThread) : ℕ := thread.loop.roundLeft + if thread.ended then 0 else 1

/-- A turn of the reactor leaves less when it is to stop. -/
theorem left_own (stopped : thread.running = false) (own : turn.Own)
    (taken : thread.step turn = some next)
    : next.left < thread.left := by
  cases takes_of_step taken with
  | turn allowed moved =>
      have less := EventLoop.roundLeft_step own (ne_drain_of_allows allowed stopped) moved
      exact Nat.add_lt_add_right less _
  | stop => cases own
  | @leave order top idle stopped goesOn =>
      have before : thread.left = 2 * thread.loop.server.buffered + 1 := by
        simp [left, EventLoop.roundLeft, EventLoop.placeLeft, Server.turnLeft, top, idle, goesOn]
      have after : (thread.leave order).left = 0 := by
        simp [left, ReactorThread.leave, EventLoop.roundLeft, EventLoop.placeLeft, Server.turnLeft,
          Server.buffered, top, idle]
      rw [before, after]
      exact Nat.succ_pos _

theorem left_of_other (other : ¬ turn.Own) (taken : thread.step turn = some next)
    : next.left ≤ thread.left := by
  cases takes_of_step taken with
  | turn allowed moved =>
      have less := EventLoop.roundLeft_of_other (Bool.eq_false_iff.mpr other) moved
      exact Nat.add_le_add_right less _
  | stop => exact le_rfl
  | leave => exact absurd rfl other

theorem stopped_step (stopped : thread.running = false) (taken : thread.step turn = some next)
    : next.running = false := by
  cases takes_of_step taken with
  | turn | leave => exact stopped
  | stop => rfl

/-- A reactor that is to stop takes only so many turns. -/
theorem decreases_left
    : TransitionSystem.Decreases step (fun _ turn => turn.Own = true)
        (fun thread => thread.running = false) left where
  preserved := fun stopped taken => stopped_step stopped taken
  smaller := fun stopped own taken => left_own stopped own taken

/-- Until it has ended, a reactor that is to stop has a turn that it can take. -/
theorem enabled (sound : thread.Sound) (stopped : thread.running = false)
    (goesOn : thread.ended = false)
    : ∃ turn : ReactorTurn, turn.Own ∧ thread.step turn ≠ none := by
  by_cases top : thread.loop.place = .top
  · have idle := sound.settled
    simp only [EventLoop.Settled, top] at idle
    refine ⟨.leave thread.loop.server.connections.keys.toList, rfl, ?_⟩
    simp [step, top, idle, stopped, goesOn, Finset.nodup_toList]
  · obtain ⟨turn, own, within, enabled⟩ := sound.settled.enabled top
    refine ⟨.turn turn, own, ?_⟩
    have allowed : thread.allows turn = true := by
      cases turn with
      | drain => exact absurd rfl within
      | deliver | rebuild | poll | entry | write | next | turn => rfl
    simp [step, allowed, enabled]

section Runs

variable {listenSocket : Socket} {threads capacity : ℕ} {store : LoggedStore} {clock : Int}
  {steps more : List (ReactorThread × ReactorTurn)} {later : ReactorThread}

/-- When it has been told to stop, the reactor ends: whatever clients, workers and the sweeper do
in between, it takes at most as many turns as a bound of its state says, and until it has ended it
has one that it can take. Then no connection is open, every one that was accepted has been closed,
and none twice.
-/
theorem stops
    (run
      : TransitionSystem.Run step (start listenSocket threads capacity store clock) steps thread)
    (stopped : thread.running = false) (goesOn : TransitionSystem.Run step thread more later)
    : (more.countP fun entry => entry.2.Own) ≤ thread.left
      ∧ (later.ended = false → ∃ turn : ReactorTurn, turn.Own ∧ later.step turn ≠ none)
      ∧ (later.ended = true
        → later.loop.server.connections = ∅
          ∧ Leases.Alternates later.loop.leases
          ∧ ∀ handle,
              later.loop.leases.count (.opened handle)
              = later.loop.leases.count (.closed handle)) := by
  have sound : later.Sound :=
    (run.append goesOn).preserves (fun sound taken => sound.step taken)
      (.start listenSocket threads capacity store clock)
  refine ⟨?_, fun ended => ?_, fun ended => ?_⟩
  · have bound :=
      decreases_left.countP_add_le (fun _ other taken => left_of_other other taken) goesOn stopped
    simp only [Bool.decide_eq_true] at bound
    exact Nat.le_of_add_right_le bound
  · have stays := goesOn.preserves (fun stopped taken => stopped_step stopped taken) stopped
    exact enabled sound stays ended
  · obtain ⟨-, -, none⟩ := sound.finished ended
    refine ⟨none, sound.kept.consistent.alternates, fun handle => ?_⟩
    have balanced := sound.kept.balanced handle
    rw [none] at balanced
    simpa using balanced

/-- The reactor is told to stop when it has just read a request. It handles the rest of the round,
a worker executes the request, and the response comes too late.
-/
theorem stops_reading
    : ∃ steps thread more later,
        TransitionSystem.Run step (start 3 1 8 (.empty 1024 0) 0) steps thread
        ∧ thread.loop.server.position = .reading 5
        ∧ TransitionSystem.Run step thread more later
        ∧ (more.countP fun entry => entry.2.Own) = 6
        ∧ 6 ≤ thread.left
        ∧ later.ended = true
        ∧ later.loop.server.pool.completionQueue.length = 1
        ∧ later.loop.server.connections = ∅ := by
  have told {steps more : List (ReactorThread × ReactorTurn)} {thread later : ReactorThread}
      (traced
        : TransitionSystem.trace step (start 3 1 8 (.empty 1024 0) 0)
            [.turn .drain, .turn .deliver, .turn (.rebuild []),
              .turn (.poll (some [⟨false, true, false⟩])),
              .turn (.entry (some (5, [])) none), .turn .next,
              .turn .drain, .turn .deliver, .turn (.rebuild [5]),
              .turn (.poll (some [⟨false, false, false⟩, ⟨false, true, false⟩])),
              .turn (.entry none none), .turn (.entry none (some (ascii "GET a\n"))), .stop]
          = some (steps, thread))
      (traced'
        : TransitionSystem.trace step thread
            [.turn (.turn .readLine), .turn (.turn .process), .turn (.turn (.pop 0)),
              .turn (.turn .readLine), .turn (.write none), .turn .next,
              .turn (.turn (.execute 0 0 .none)), .leave [5], .turn (.turn (.post 0))]
          = some (more, later))
      : TransitionSystem.Run step (start 3 1 8 (.empty 1024 0) 0) steps thread
        ∧ TransitionSystem.Run step thread more later :=
    ⟨TransitionSystem.run_of_trace traced, TransitionSystem.run_of_trace traced'⟩
  obtain ⟨run, goesOn⟩ := told rfl rfl
  obtain ⟨bound, -, closes⟩ := stops run rfl goesOn
  exact ⟨_, _, _, _, run, rfl, goesOn, rfl, bound, rfl, rfl, (closes rfl).1⟩

end Runs

end ReactorThread

end InMemoryDB
