import InMemoryDB.Network.Backpressure

/-! What every change that the reactor makes to a connection keeps, all open connections have. -/

namespace InMemoryDB

/-- A property that a new connection has and every change to one keeps. A line is only issued
with room in flight, and of results only allowed ones are placed.
-/
structure Connection.Kept (allowed : TaskResult → Prop) (property : Connection → Prop) : Prop where
  opened : ∀ ip id, property { clientIp := ip, id := id }
  received
    : ∀ {connection} chunk,
        property connection
        → property
            { connection with
              readBuffer := connection.readBuffer ++ chunk
              received := connection.received ++ chunk }
  consumed
    : ∀ {connection} rest, property connection → property { connection with readBuffer := rest }
  issued
    : ∀ {connection} line rest,
        connection.inFlightRequests < maxPipelineDepth
        → property connection
        → property
            { connection with
              toConnectionState := connection.toConnectionState.issue rest
              issued := connection.issued ++ [line] }
  written
    : ∀ {connection} count,
        property connection
        → property
            { connection with
              toConnectionState := connection.toConnectionState.written count
              sent := connection.sent ++ connection.writeBuffer.take count }
  placed
    : ∀ {connection} result,
        allowed result
        → property connection
        → property
            { connection with
              toConnectionState := connection.toConnectionState.place result
              placed := connection.placed ++ [result.origin] }

namespace Server

/-- All open connections have a property. -/
def AllConnections (property : Connection → Prop) (server : Server) : Prop :=
  ∀ client connection,
    server.connections.lookup client = some connection → property connection

variable {property : Connection → Prop} {allowed : TaskResult → Prop} {server next : Server}
  {action : Action}

theorem AllConnections.insert (all : server.AllConnections property) {client : Socket}
    {changed : Connection} (own : property changed)
    (moved : next.connections = server.connections.insert client changed)
    : next.AllConnections property := by
  intro other connection found
  rw [moved] at found
  rcases lookup_insert_cases found with ⟨rfl, rfl⟩ | ⟨-, known⟩
  · exact own
  · exact all other connection known

/-- A turn of the read loop, by cases on what it comes to. -/
theorem AllConnections.readLine (all : server.AllConnections property)
    (kept : Connection.Kept allowed property) {client : Socket} {connection : Connection}
    (found : server.connections.lookup client = some connection)
    : (server.readLine client connection).AllConnections property := by
  have own := all client connection found
  rcases connection.readTurn_cases server.queueOver90 with
    ⟨-, turn⟩
    | ⟨line, rest, -, -, -, ⟨-, turn⟩ | ⟨-, -, turn⟩ | ⟨-, room, turn⟩⟩
  · rw [Server.readLine, turn]
    exact all
  · rw [Server.readLine, turn]
    exact all.insert (kept.consumed rest own) rfl
  · rw [Server.readLine, turn]
    exact all.insert (kept.consumed rest own) rfl
  · rw [Server.readLine, turn]
    have depth : connection.inFlightRequests < maxPipelineDepth :=
      not_le.mp fun full => room (.inl full)
    exact all.insert (kept.issued (stripCr line) rest depth own) rfl

/-- Every turn keeps the property, by cases on what it does. -/
theorem AllConnections.step (all : server.AllConnections property)
    (kept : Connection.Kept allowed property)
    (results : ∀ result ∈ server.position.drained, allowed result)
    (taken : server.step action = some next)
    : next.AllConnections property := by
  cases takes_of_step taken with
  | accepted => exact all.insert (kept.opened _ _) rfl
  | received idle found => exact all.insert (kept.received _ (all _ _ found)) rfl
  | readLine reads found => exact all.readLine kept found
  | written count found => exact all.insert (kept.written count (all _ _ found)) rfl
  | @deliver result rest drains =>
      unfold Server.deliver
      split
      · exact all
      · rename_i connection found
        have permitted : allowed result := results result (by simp [drains, Position.drained])
        exact all.insert (kept.placed result permitted (all _ _ found)) rfl
  | disconnected client idle =>
      exact fun other connection found => all other connection (lookup_of_lookup_erase found)
  | rejected | process | drain | drained | unpause | pop | execute | post | sweep => exact all

end Server

end InMemoryDB
