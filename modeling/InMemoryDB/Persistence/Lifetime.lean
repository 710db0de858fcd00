import InMemoryDB.Persistence.Acknowledgement
import InMemoryDB.Persistence.Reconstruction

/-! How long keys live after a restart. The log names times to live but no times of creation,
so a replayed entry starts its life anew; a deleted or swept key does not come back.
-/

namespace InMemoryDB

/-- What is dead in the run is dead in every replay, whatever the arenas refuse; by induction
on the history. Only `DEL` records end the life of a key, and they ask for no memory.
-/
theorem KeyHistory.dead_replay
    {allowed : Int → Option CacheAlignedValue → StoreStep → Prop} {key : Bytes} {now : Int}
    {records : List ICommand} {entry : Option CacheAlignedValue}
    (history : KeyHistory allowed key now records entry) {refusing : Prop} {since limit : Int}
    {replayed : Option CacheAlignedValue}
    (restored : Restores refusing since records limit replayed) (dead : Dead entry)
    : Dead replayed := by
  have buried {records : List ICommand} {limit : Int} {replayed : Option CacheAlignedValue}
      (restored : Restores refusing since (records ++ [.del key]) limit replayed)
      : Dead replayed := by
    obtain ⟨time, earlier, -, -, rfl | ⟨-, asks, -⟩⟩ := restored.last
    · exact dead_effect_del _ _ _
    · cases asks
  induction history generalizing limit replayed with
  | nil =>
      rw [restored.eq_none]
      rintro value ⟨⟩
  | later _ _ ih => exact ih restored dead
  | @execute now records entry _ command own _ _ ih =>
      cases logged : (command.effect now entry).logged with
      | false =>
          rw [logged, if_neg (by simp), List.append_nil] at restored
          rw [ICommand.effect_of_unlogged logged] at dead
          exact ih restored dead
      | true =>
          rw [if_pos logged] at restored
          have acts := command.acts now entry
          generalize command.effect now entry = effect at acts dead logged
          cases acts with
          | kept => cases logged
          | written | made => cases dead _ rfl
          | deleted =>
              obtain rfl := Option.some.inj own
              exact buried restored
          | added _ live => exact absurd (dead _ rfl) (by simp [(eq_some_of_liveEntry live).2.1])
  | @sweep now records entry _ _ ih =>
      rw [← liveEntry_of_any] at dead
      split at dead
      · rename_i swept
        rw [if_pos swept] at restored
        exact buried restored
      · rename_i kept
        rw [if_neg kept, List.append_nil] at restored
        exact ih restored dead

theorem ShardRouter.exists_iff {router : ShardRouter} {now : Int} {key : Bytes}
    : router.exists now key = true
      ↔ ∃ value,
          router.entry key = some value
          ∧ value.tombstoned = false
          ∧ value.isExpired now = false := by
  rw [ShardRouter.exists_eq, Option.isSome_iff_exists]
  constructor
  · rintro ⟨value, live⟩
    obtain ⟨present, kept, unexpired⟩ := eq_some_of_liveEntry live
    exact ⟨value, present, kept, unexpired⟩
  · rintro ⟨value, present, kept, unexpired⟩
    exact ⟨value, by simp [present, liveEntry_some, CacheAlignedValue.isLive, kept, unexpired]⟩

/-- An entry without a tombstone shows as long as it has not expired. -/
theorem ShardRouter.exists_of_kept {router : ShardRouter} {key : Bytes}
    {value : CacheAlignedValue} (present : router.entry key = some value)
    (kept : value.tombstoned = false) (now : Int)
    : router.exists now key = !value.isExpired now := by
  rw [ShardRouter.exists_eq, present, liveEntry_some, CacheAlignedValue.isLive, kept]
  cases value.isExpired now <;> rfl

/-- A key that shows after a restart was neither deleted nor swept before it. It would show
without the restart until its own time to live runs out; after the restart its life is counted
from its replay. Unless the run revived an expired entry of another type, type and time to
live are those that it had.
-/
theorem lifetime_restart (totalMemory exponent : ℕ) (events : List (Surroundings × Event))
    (ordered : InOrder events) (around : Surroundings)
    (done : ∀ event ∈ events, event.1.finish ≤ around.start) (totalMemory' exponent' : ℕ)
    (key : Bytes) (now : Int)
    (visible
      : (((LoggedStore.empty totalMemory exponent).performAll events).restart around
          totalMemory' exponent').router.exists now key
        = true)
    : let store := (LoggedStore.empty totalMemory exponent).performAll events
      let restarted := store.restart around totalMemory' exponent'
      ∃ kept value,
        store.router.entry key = some kept
        ∧ kept.tombstoned = false
        ∧ (∀ later, store.router.exists later key = !kept.isExpired later)
        ∧ restarted.router.entry key = some value
        ∧ around.start ≤ value.createdAt
        ∧ value.createdAt ≤ around.finish
        ∧ (∀ later,
            around.finish ≤ later
            → (restarted.router.exists later key = false
              ↔ 0 ≤ value.ttlSeconds
                ∧ value.createdAt + value.ttlSeconds * nanosecondsPerSecond ≤ later))
        ∧ (around.Roomy
          → RevivesNoOtherType events (.empty totalMemory exponent)
          → value.type = kept.type ∧ value.ttlSeconds = kept.ttlSeconds) := by
  intro store restarted
  obtain ⟨value, present, alive, -⟩ := ShardRouter.exists_iff.mp visible
  have restores {allowed : Int → Option CacheAlignedValue → StoreStep → Prop}
      {records : List ICommand} (recorded : Recorded allowed around.start store records)
      : Restores (∃ turn, around.refusals turn ≠ .none) around.start (recordsOf key records)
          around.finish (some value) := by
    have file : store.aof.shutdown.file = encodeLines (records.map ICommand.serialize) :=
      (AofLogger.file_shutdown recorded.ready).trans recorded.content
    have loop := ServerBuilder.restores_boot around.monotone around.refusals totalMemory'
      exponent' (fun record member => (recorded.wellFormed record member).1)
      (around.within 0).1 key
    rw [← file] at loop
    rw [← present]
    exact .later loop (around.within _).2
  obtain ⟨records, recorded⟩ :=
    Recorded.of_run totalMemory exponent ordered done (allAllowed_of_any _ _)
  obtain ⟨kept, found, keeps⟩ : ∃ kept, store.router.entry key = some kept
      ∧ kept.tombstoned = false := by
    by_contra gone
    have dead : Dead (store.router.entry key) := by
      intro kept found
      by_contra keeps
      exact gone ⟨kept, found, by simpa using keeps⟩
    have buried := (recorded.history key).dead_replay (restores recorded) dead value rfl
    exact absurd buried (by simp [alive])
  obtain ⟨since, created⟩ := (restores recorded).createdAt value rfl
  refine ⟨kept, value, found, keeps, ShardRouter.exists_of_kept found keeps, present, since,
    created, ?_, ?_⟩
  · intro later after
    rw [ShardRouter.exists_of_kept present alive, Bool.not_eq_false',
      CacheAlignedValue.isExpired_iff (created.trans after)]
  · intro roomy careful
    obtain ⟨records, recorded⟩ := Recorded.of_run totalMemory exponent ordered done careful
    have restored := (restores recorded).of_roomy (by simpa using fun turn => roomy turn)
    rcases ((recorded.history key).applied around.start).1 _ _ restored with
      ⟨_, _, same, ⟨⟩, -, -, type, ttl⟩ | ⟨-, dead⟩
    · obtain rfl := Option.some.inj (same.symm.trans found)
      exact ⟨type, ttl⟩
    · exact absurd (dead value rfl) (by simp [alive])

/-- A key stored for ten seconds, two seconds before the restart. -/
def storedForTen : List (Surroundings × Event) :=
  [(.instant 0, .request (ascii "SET k v 10"))]

theorem lifetime_restart_ten
    : ∃ kept value,
        ((LoggedStore.empty 1024 0).performAll storedForTen).router.entry (ascii "k") = some kept
        ∧ (((LoggedStore.empty 1024 0).performAll storedForTen).restart (.instant 2000000000)
            1024 0).router.entry (ascii "k")
          = some value
        ∧ value.ttlSeconds = kept.ttlSeconds
        ∧ value.createdAt = 2000000000 := by
  obtain ⟨kept, value, found, -, -, present, since, created, -, same⟩ :=
    lifetime_restart 1024 0 storedForTen (by simp [InOrder, storedForTen])
      (.instant 2000000000) (by simp [storedForTen, Surroundings.instant]) 1024 0 (ascii "k")
      2000000000 (by decide)
  refine ⟨kept, value, found, present, (same ?_ ?_).2, le_antisymm created since⟩
  · simp [Surroundings.instant, Surroundings.Roomy]
  · intro front now access back whole
    have only : accessesOf storedForTen
        = [(0, .execute .none (.set (ascii "k") (ascii "v") 10) (by decide))] := rfl
    rw [only] at whole
    rcases front with _ | ⟨_, _ | _⟩
    · obtain ⟨⟨rfl, rfl⟩, -⟩ := by simpa using whole
      rintro key - ⟨kind, value, adds, -⟩
      cases adds
    · simp at whole
    · simp at whole

/-- A key whose second has passed before the restart shows again after it. -/
theorem lifetime_restart_fails
    : ¬ ∀ (totalMemory exponent : ℕ) (events : List (Surroundings × Event)),
        InOrder events
        → ∀ around : Surroundings,
          (∀ event ∈ events, event.1.finish ≤ around.start)
          → ∀ (totalMemory' exponent' : ℕ) (key : Bytes),
            let store := (LoggedStore.empty totalMemory exponent).performAll events
            let restarted := store.restart around totalMemory' exponent'
            restarted.router.exists around.finish key = true
            → store.router.exists around.finish key = true
              ∧ ∀ later,
                around.finish ≤ later
                → store.router.exists later key = false
                → restarted.router.exists later key = false := by
  intro claim
  have same := claim 1024 0 [(.instant 0, .request (ascii "SET k v 1"))]
    (by simp [InOrder]) (.instant 2000000000) (by simp [Surroundings.instant]) 1024 0 (ascii "k")
    (by decide)
  exact absurd same.1 (by decide)

end InMemoryDB
