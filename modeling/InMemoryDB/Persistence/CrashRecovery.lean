import InMemoryDB.Persistence.LogOrder
import InMemoryDB.Persistence.TornLog

/-! A server that dies at any moment, with records on their way and lines in its buffers. What is
left of the log takes every key back to a moment of its own.
-/

namespace InMemoryDB

/-- A new server starts on the file that a dead one has left. -/
def LoggedStore.recover (around : Surroundings) (totalMemory exponent : ℕ) (file : Bytes)
    : LoggedStore :=
  let (router, aof) :=
    ServerBuilder.boot around.clock around.refusals totalMemory exponent file
  ⟨router, aof⟩

-----------------------------------------------------------------------------------------
-- The moments of a run
-----------------------------------------------------------------------------------------

namespace ConcurrentStore

variable {store next : ConcurrentStore} {turn : Turn}

end ConcurrentStore

-----------------------------------------------------------------------------------------
-- The replay of what is left
-----------------------------------------------------------------------------------------

/-- Any part of a log from its beginning is whole records and the beginning of another one. -/
theorem exists_whole {records : List ICommand}
    (wellFormed : ∀ record ∈ records, record.WellFormed) {cut : Bytes}
    (left : cut <+: encodeLines (records.map ICommand.serialize))
    : ∃ whole rest fragment,
        records = whole ++ rest
        ∧ cut = encodeLines (whole.map ICommand.serialize) ++ fragment
        ∧ newline ∉ fragment := by
  obtain ⟨texts, others, fragment, split, rfl, torn⟩ := Delimited.prefix_flatMap left
  obtain ⟨whole, rest, rfl, rfl, rfl⟩ := List.map_eq_append_iff.mp split
  refine ⟨whole, rest, fragment, rfl, rfl, ?_⟩
  rcases torn with rfl | ⟨part, more, same, begun⟩
  · exact List.not_mem_nil
  · obtain ⟨record, after, rfl, rfl, -⟩ := List.map_eq_cons_iff.mp same
    have member : record ∈ whole ++ record :: after :=
      List.mem_append_right _ List.mem_cons_self
    exact fun inside =>
      ServerBuilder.newline_notMem_serialize (wellFormed record member) (begun.subset inside)

namespace ConcurrentStore

end ConcurrentStore

end InMemoryDB
