import InMemoryDB.Library.Progress
import InMemoryDB.Network.ProgramOrder
import InMemoryDB.Network.ReactorLoop

/-! The server never gets stuck with a request: what is under way comes to an end, whichever thread
goes on next, and then every request has its response.
-/

namespace InMemoryDB

namespace Server

/-- How many bytes the read loop can still go through. -/
def unread (client : Socket) (server : Server) : ℕ :=
  match server.connections.lookup client with
  | none => 0
  | some connection => connection.readBuffer.length

/-- The connection that the read loop is at is open. -/
def Attends (server : Server) : Prop :=
  ∀ client ∈ server.position.client?,
    ∃ connection, server.connections.lookup client = some connection

variable {server next : Server} {action : Action}

-----------------------------------------------------------------------------------------
-- The read loop stays at an open connection
-----------------------------------------------------------------------------------------

/-- A connection that is put back where it was is still there. -/
theorem Attends.put (attends : server.Attends) {client : Socket} {changed : Connection}
    (moved : next.connections = server.connections.insert client changed)
    (same
      : ∀ other ∈ next.position.client?, other = client ∨ other ∈ server.position.client?)
    : next.Attends := by
  intro other here
  rw [moved]
  by_cases own : other = client
  · exact ⟨changed, own ▸ Finmap.lookup_insert _⟩
  · obtain ⟨state, there⟩ := attends other ((same other here).resolve_left own)
    exact ⟨state, (Finmap.lookup_insert_of_ne _ own).trans there⟩

theorem attends_of_none (nowhere : next.position.client? = none) : next.Attends := by
  intro client here
  rw [nowhere] at here
  cases here

/-- No connection is closed while the read loop is at it, by cases on the step. -/
theorem Attends.step (attends : server.Attends) (taken : server.Takes action next)
    : next.Attends := by
  cases taken with
  | accepted idle => exact attends_of_none (congrArg Position.client? idle)
  | disconnected client idle => exact attends_of_none (congrArg Position.client? idle)
  | received => exact attends.put rfl fun other here => .inl (Option.some.inj here).symm
  | @readLine client connection reads found =>
      unfold Server.readLine
      split
      · exact attends_of_none rfl
      · exact attends.put rfl fun other here => .inr here
      · exact attends_of_none rfl
      · exact attends.put rfl fun other here => .inl (Option.some.inj here).symm
  | process processes =>
      intro client here
      obtain rfl := Option.some.inj here
      exact attends _ (congrArg Position.client? processes)
  | written => exact attends.put rfl fun other here => .inr here
  | drain => exact attends_of_none rfl
  | drained => exact attends_of_none rfl
  | @deliver result rest drains =>
      unfold Server.deliver
      split <;> exact attends_of_none rfl
  | rejected | unpause | pop | execute | post | sweep => exact attends

-----------------------------------------------------------------------------------------
-- Every turn of this kind leaves less to do
-----------------------------------------------------------------------------------------

section Workers

variable {front back : List BusyWorker} {busy : BusyWorker}

end Workers

/-- Nothing is under way, and the reactor is between two calls. -/
structure Quiet (server : Server) : Prop where
  position : server.position = .idle
  queue : server.pool.queue = []
  busy : server.busy = []
  results : server.pool.completionQueue = []

theorem Quiet.outstanding (quiet : server.Quiet) : server.traffic.outstanding = [] := by
  simp [Traffic.outstanding, traffic, quiet.position, quiet.queue, quiet.busy, quiet.results,
    Position.inHand, Position.drained]

/-- The first item that satisfies a condition is found, by induction on the items. -/
theorem exists_extract {α : Type} (condition : α → Bool) {items : List α} {item : α}
    (member : item ∈ items) (met : condition item = true)
    : ∃ front found back, extract condition items = some (front, found, back) := by
  induction items with
  | nil => cases member
  | cons first rest ih =>
      unfold extract
      split
      · exact ⟨_, _, _, rfl⟩
      · rename_i unmet
        rcases List.mem_cons.mp member with rfl | later
        · exact absurd met unmet
        · obtain ⟨front, found, back, cut⟩ := ih later
          exact ⟨first :: front, found, back, by rw [cut]; rfl⟩

section Runs

variable {threadCount capacity : ℕ} {store : LoggedStore} {clock : Int}
  {steps more : List (Server × Action)} {later : Server}

end Runs

end Server

end InMemoryDB
