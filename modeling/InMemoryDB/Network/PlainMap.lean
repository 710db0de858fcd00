import InMemoryDB.Core.LazyDeletion
import InMemoryDB.Network.SerialOrder

/-! The server with its threads, shards, tombstones and sweeper against one plain map with
deadlines.
-/

namespace InMemoryDB

open ExpiringMap

-----------------------------------------------------------------------------------------
-- A server on a plain map
-----------------------------------------------------------------------------------------

/-- The binding that each key was given last, which may be past its deadline, at a time. -/
structure MapServer where
  store : ReferenceStore
  clock : Int

namespace MapServer

/-- A command at a time. Only writes change the map. -/
def execute (now : Int) (command : ICommand) (server : MapServer) : MapServer :=
  {
    store := if command.isWrite then (server.store.execute now command).2 else server.store,
    clock := now
  }

/-- A line is answered from the map, with two exceptions: there may be no memory for new data, which
leaves the map as it was, and `DEL` may still count a key that is past its deadline.
-/
inductive Answers : MapServer → Bytes → Bytes → MapServer → Prop
  | executed {server : MapServer} {line : Bytes} {command : ICommand}
    (made : commandOf line = some command) {now : Int} (advances : server.clock ≤ now)
    : Answers server line (server.store.execute now command).1 (server.execute now command)
  | exhausted {server : MapServer} {line : Bytes} {command : ICommand}
    (made : commandOf line = some command) (asks : command.asksMemory = true) {now : Int}
    (advances : server.clock ≤ now)
    : Answers server line oomReply { server with clock := now }
  | overdue {server : MapServer} {line key : Bytes} {binding : ReferenceEntry}
    (made : commandOf line = some (.del key)) {now : Int} (advances : server.clock ≤ now)
    (bound : server.store key = some binding) (past : binding.alive now = false)
    : Answers server line (integerReply 1) (server.execute now (.del key))
  | refused {server : MapServer} {line : Bytes} (none : commandOf line = none)
    : Answers server line (refusalOf line) server

/-- Nothing changes but by commands. -/
def specification : Linearization.Specification Bytes Bytes MapServer :=
  ⟨Answers, fun _ _ => False⟩

end MapServer

-----------------------------------------------------------------------------------------
-- Entries and bindings
-----------------------------------------------------------------------------------------

/-- What the map has for a key whose entry is in the shards, or is not: a tombstone or no entry
stands for any binding that has ended.
-/
structure StandsFor (now : Int) (entry : Option CacheAlignedValue)
    (binding : Option ReferenceEntry)
    : Prop where
  past : ∀ value, entry = some value → value.createdAt ≤ now
  kept
    : ∀ value, entry = some value → value.tombstoned = false → binding = some value.toBinding
  gone
    : (∀ value, entry = some value → value.tombstoned = true) → present now binding = none

namespace StandsFor

variable {now : Int} {entry : Option CacheAlignedValue} {binding : Option ReferenceEntry}

theorem mono (stands : StandsFor now entry binding) {later : Int} (order : now ≤ later)
    : StandsFor later entry binding where
  past value found := (stands.past value found).trans order
  kept := stands.kept
  gone ended := by rw [← present_present order, stands.gone ended]; rfl

/-- What is seen of the entry is what is left of the binding. -/
theorem visible (stands : StandsFor now entry binding)
    : visible now entry = present now binding := by
  cases entry with
  | none => exact (stands.gone (by simp)).symm
  | some value =>
      cases dead : value.tombstoned with
      | true =>
          rw [stands.gone (by simpa using dead)]
          simp [InMemoryDB.visible, liveEntry_some, CacheAlignedValue.isLive, dead]
      | false =>
          rw [visible_some (stands.past value rfl) dead, stands.kept value rfl dead]

/-- A new entry stands for its binding. -/
theorem new (now : Int) (data : ValueVariant) (ttl : Int)
    : StandsFor now (some (.new data ttl now)) (some ⟨data, deadlineOf ttl now⟩) where
  past := by
    rintro value ⟨⟩
    exact le_rfl
  kept := by
    rintro value ⟨⟩ -
    rfl
  gone ended := by cases ended _ rfl

/-- A live entry that is changed in place stands for its binding changed in place. -/
theorem replaced {found : CacheAlignedValue} (past : found.createdAt ≤ now)
    (kept : found.tombstoned = false) (data : ValueVariant)
    : StandsFor now (some { found with data := data })
        (some ⟨data, deadlineOf found.ttlSeconds found.createdAt⟩) where
  past := by
    rintro value ⟨⟩
    exact past
  kept := by
    rintro value ⟨⟩ -
    rfl
  gone ended := by
    rw [ended _ rfl] at kept
    cases kept

/-- A sweep takes an entry whose binding has ended. -/
theorem swept (stands : StandsFor now entry binding)
    : StandsFor now (liveEntry now entry) binding where
  past value found := stands.past value (eq_some_of_liveEntry found).1
  kept value found := stands.kept value (eq_some_of_liveEntry found).1
  gone ended := by
    rw [← stands.visible, InMemoryDB.visible]
    cases live : liveEntry now entry with
    | none => rfl
    | some found =>
        have kept := (eq_some_of_liveEntry live).2.1
        rw [ended found live] at kept
        cases kept

/-- A tombstone or no entry stands for no binding. -/
theorem ended (past : ∀ value, entry = some value → value.createdAt ≤ now)
    (dead : ∀ value, entry = some value → value.tombstoned = true)
    : StandsFor now entry none where
  past := past
  kept value found kept := by
    rw [dead value found] at kept
    cases kept
  gone _ := rfl

/-- A write does to the entry what it does to the binding, by cases on the command. -/
theorem write (stands : StandsFor now entry binding) {command : ICommand}
    (writes : command.isWrite = true)
    : StandsFor now (command.effect now entry).entry
        (command.referenceEffect now (present now binding)).2 := by
  have shown : present now binding = (liveEntry now entry).map CacheAlignedValue.toBinding :=
    stands.visible.symm
  have unchanged {found : CacheAlignedValue} (live : liveEntry now entry = some found)
      : StandsFor now entry (some found.toBinding) := by
    obtain ⟨here, kept, -⟩ := eq_some_of_liveEntry live
    rw [← stands.kept found here kept]
    exact stands
  have changed {found : CacheAlignedValue} (live : liveEntry now entry = some found)
      (data : ValueVariant)
      : StandsFor now (some { found with data := data })
          (some ⟨data, deadlineOf found.ttlSeconds found.createdAt⟩) := by
    obtain ⟨here, kept, -⟩ := eq_some_of_liveEntry live
    exact .replaced (stands.past found here) kept data
  cases command with
  | set key value ttl => exact .new now (.string value) ttl
  | del key =>
      have past := stands.past
      unfold ICommand.effect ICommand.referenceEffect
      cases entry with
      | none => exact .ended past (by simp)
      | some value =>
          cases dead : value.tombstoned with
          | true =>
              simp only [dead, if_true]
              exact .ended past (by simpa using dead)
          | false =>
              simp only [dead, Bool.false_eq_true, if_false]
              refine .ended ?_ (by simp)
              rintro other ⟨⟩
              exact past value rfl
  | lpush key value ttl =>
      unfold ICommand.effect ICommand.referenceEffect
      rw [shown]
      cases live : liveEntry now entry with
      | none => exact .new now (.list [value]) ttl
      | some found =>
          have same := unchanged live
          unfold CacheAlignedValue.toBinding at same
          simp only [Option.map_some, CacheAlignedValue.toBinding]
          cases kind : found.data with
          | list items => exact changed live _
          | string _ | integer _ | hash _ =>
              rw [kind] at same
              exact same
  | hset key field value ttl =>
      unfold ICommand.effect ICommand.referenceEffect
      rw [shown]
      cases live : liveEntry now entry with
      | none => exact .new now (.hash (Finmap.insert field value ∅)) ttl
      | some found =>
          have same := unchanged live
          unfold CacheAlignedValue.toBinding at same
          simp only [Option.map_some, CacheAlignedValue.toBinding]
          cases kind : found.data with
          | hash fields => exact changed live _
          | string _ | integer _ | list _ =>
              rw [kind] at same
              exact same
  | get | «exists» | ping | lrange | hget => cases writes

end StandsFor

-----------------------------------------------------------------------------------------
-- The map is like the shards
-----------------------------------------------------------------------------------------

theorem ReferenceStore.execute_of_ne {now : Int} {command : ICommand} {other : Bytes}
    (different : command.key? ≠ some other) (store : ReferenceStore)
    : (store.execute now command).2 other = store other := by
  unfold execute
  cases own : command.key? with
  | none => rfl
  | some key =>
      refine Function.update_of_ne ?_ _ _
      exact fun same => different (same ▸ own)

/-- Every entry of the shards stands for the binding of its key. -/
structure LikeMap (server : SerialServer) (map : MapServer) : Prop where
  clock : map.clock ≤ server.clock
  entries : ∀ key, StandsFor server.clock (server.router.entry key) (map.store key)

namespace LikeMap

variable {server next : SerialServer} {map : MapServer}

/-- Then the shards show what is left of the map. -/
theorem simulated (like : LikeMap server map)
    : Simulated server.clock server.router map.store where
  past key := (like.entries key).past
  same key := (like.entries key).visible

/-- A command with memory for everything does to the shards what it does to the map. -/
theorem execute (like : LikeMap server map) {now : Int} (advances : server.clock ≤ now)
    (command : ICommand)
    : LikeMap
        {
          router := (command.execute .none now server.router server.aof).router,
          aof := (command.execute .none now server.router server.aof).aof,
          clock := now
        }
        (map.execute now command) where
  clock := le_rfl
  entries other := by
    have stands := (like.entries other).mono advances
    have done := (command.realizes server.router server.aof now).entry other
    change StandsFor now ((command.execute .none now server.router server.aof).router.entry other) _
    rw [done, MapServer.execute]
    by_cases own : command.key? = some other
    · have here : command.entryIn server.router = server.router.entry other := by
        rw [ICommand.entryIn, own, Option.bind_some]
      rw [if_pos own, here]
      cases writes : command.isWrite with
      | false =>
          obtain ⟨reply, same⟩ := ICommand.effect_of_read writes now (server.router.entry other)
          simpa [same] using stands
      | true =>
          have new := stands.write writes
          simpa [ReferenceStore.execute, own] using new
    · rw [if_neg own]
      cases writes : command.isWrite with
      | false => simpa using stands
      | true => simpa [ReferenceStore.execute_of_ne own] using stands

/-- Time passes. -/
theorem mono (like : LikeMap server map) {now : Int} (advances : server.clock ≤ now)
    : LikeMap { server with clock := now } { map with clock := now } where
  clock := le_rfl
  entries key := (like.entries key).mono advances

/-- An answer from the shards is one from the map, by cases on it. -/
theorem answers (like : LikeMap server map) {line text : Bytes}
    (answered : SerialServer.Answers server line text next)
    : ∃ map', MapServer.Answers map line text map' ∧ LikeMap next map' := by
  cases answered with
  | refused none => exact ⟨map, .refused none, like⟩
  | @executed command made now advances refusals =>
      have later := like.clock.trans advances
      rcases command.execute_none_or_refused refusals now server.router server.aof with
        whole | ⟨asks, refused⟩
      · rw [whole]
        have same := like.execute advances command
        by_cases stale : command.DeletesExpired now server.router
        · obtain ⟨key, entry, rfl, found, kept, expired⟩ := stale
          have stands := (like.entries key).mono advances
          have past := entry.alive_toBinding (stands.past entry found)
          rw [expired, Bool.not_true] at past
          have counted
              : ((ICommand.del key).execute .none now server.router server.aof).reply
                = integerReply 1 := by
            rw [((ICommand.del key).realizes server.router server.aof now).reply]
            simp [ICommand.entryIn, ICommand.key?, ICommand.effect, found, kept]
          rw [counted]
          exact ⟨_, .overdue made later (stands.kept entry found kept) past, same⟩
        · obtain ⟨reply, -⟩ :=
            (like.simulated.later advances).execute server.aof command stale
          rw [reply]
          exact ⟨_, .executed made later, same⟩
      · rw [refused]
        exact ⟨_, .exhausted made asks later, like.mono advances⟩

/-- The sweeper is not seen in the map. -/
theorem moves (like : LikeMap server map) (moved : SerialServer.Moves server next)
    : LikeMap next map := by
  cases moved with
  | @sweep now advances key =>
      refine ⟨like.clock.trans advances, fun other => ?_⟩
      have stands := (like.entries other).mono advances
      change StandsFor now ((server.router.evictExpired now key).2.entry other) _
      rw [ShardRouter.entry_evictExpired]
      split
      · rename_i same
        exact same ▸ stands.swept
      · exact stands

end LikeMap

/-- The map that shards without a history stand for. -/
def MapServer.of (server : SerialServer) : MapServer :=
  {
    store := fun key =>
      ((server.router.entry key).filter fun value => !value.tombstoned).map
        CacheAlignedValue.toBinding,
    clock := server.clock
  }

theorem likeMap_of {server : SerialServer}
    (past : ∀ key value, server.router.entry key = some value → value.createdAt ≤ server.clock)
    : LikeMap server (.of server) where
  clock := le_rfl
  entries key := by
    refine ⟨past key, ?_, ?_⟩
    · intro value found kept
      simp [MapServer.of, found, kept]
    · intro ended
      have none : (MapServer.of server).store key = none := by
        cases found : server.router.entry key with
        | none => simp [MapServer.of, found]
        | some value => simp [MapServer.of, found, ended value found]
      rw [none]
      rfl

namespace Server

variable {threadCount capacity : ℕ} {store : LoggedStore} {clock : Int}
  {steps : List (Server × Action)} {server : Server}

/-- Whatever the threads and the sweeper do, the server is linearizable as one map with deadlines:
there is an order of the requests in which the map could have given the same answers, each after its
call and before its result, and what the shards show in the end is what is left of it.
-/
theorem linearizable_map (positive : 0 < capacity)
    (past : ∀ key value, store.router.entry key = some value → value.createdAt ≤ clock)
    (run : TransitionSystem.Run step (startWith threadCount capacity store clock) steps server)
    : ∃ order map,
        Linearization.Linearizes MapServer.specification (.of { store with clock := clock }) order
          map (history steps)
        ∧ ∀ key,
            visible server.clock (server.store.router.entry key)
            = present server.clock (map.store key) := by
  obtain ⟨-, order, serialized⟩ := serialized_of_run positive run
  have linearizes := serialized.linearizes
  obtain ⟨map, served, like⟩ :=
    linearizes.served.simulates MapServer.specification LikeMap
      (fun like answered => like.answers answered) (fun like moved => like.moves moved)
      (likeMap_of past)
  exact ⟨order, map, { linearizes with served := served }, like.simulated.same⟩

/-- A key that is past its deadline is deleted, once before and once behind the sweeper. -/
def overdue : List Action :=
  [.accept 5 [], .recv 5 (some (ascii "SET k v 1
DEL k
SET k v 1
DEL k
")), .readLine, .process,
    .readLine, .process, .readLine, .process, .readLine, .process, .readLine, .pop 0,
    .execute 0 0 .none, .post 0, .pop 0, .execute 0 2000000000 .none, .post 0, .pop 0,
    .execute 0 2000000000 .none, .post 0, .sweep 4000000000 (ascii "k"), .pop 0,
    .execute 0 4000000000 .none, .post 0]

theorem linearizable_map_overdue
    : ∃ steps server order map,
        TransitionSystem.Run step (startWith 1 8 (.empty 1024 0) 0) steps server
        ∧ (history steps).drop 4
          = [.returned (0, 0) okReply, .returned (0, 1) (integerReply 1),
              .returned (0, 2) okReply, .returned (0, 3) (integerReply 0)]
        ∧ Linearization.Linearizes MapServer.specification
            (.of { LoggedStore.empty 1024 0 with clock := 0 }) order map (history steps) := by
  have traced
      : TransitionSystem.trace step (startWith 1 8 (.empty 1024 0) 0) overdue = some _ := rfl
  have run := TransitionSystem.run_of_trace traced
  obtain ⟨order, map, linearizes, -⟩ :=
    linearizable_map (by decide) (by simp [LoggedStore.empty]) run
  exact ⟨_, _, order, map, run, rfl, linearizes⟩

end Server

end InMemoryDB
