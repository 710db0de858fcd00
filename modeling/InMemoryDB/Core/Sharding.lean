import InMemoryDB.Core.Isolation
import InMemoryDB.Library.Lockstep

/-! The number of shards does not show: whatever it is, the commands and the sweeps of a run do
the same.
-/

namespace InMemoryDB

/-- A command at some time, or a tick of the sweeper on a wheel with any content. -/
inductive StoreOperation where
  | command (now : Int) (command : ICommand)
  | advanceTick (clock : ℕ → Int) (wheel : TimingWheel)

/-- The reply to a command, if it is one, and what the operation leaves of store and log. -/
def StoreOperation.perform (operation : StoreOperation) (store : ShardRouter × AofLogger)
    : Option Bytes × ShardRouter × AofLogger :=
  match operation with
  | .command now issued =>
      let done := issued.execute .none now store.1 store.2
      (some done.reply, done.router, done.aof)
  | .advanceTick clock wheel => (none, (wheel.advanceTick clock store.1 store.2).2)

theorem Shard.changedAt_evictExpired (now : Int) (key : Bytes) (shard : Shard)
    : shard.ChangedAt key (shard.evictExpired now key).2 := by
  unfold evictExpired
  split
  · exact .refl key shard
  · split
    · exact .erase key shard
    · exact .refl key shard

namespace ShardRouter

/-- Every key lives only where its hash puts it. -/
def Placed (router : ShardRouter) : Prop :=
  ∀ index key, (router.lookupAt index key).isSome = true → index = router.shardIndex key

/-- A change in the right places keeps all keys in theirs. -/
theorem ChangedAt.placed {touched : Bytes → Prop} {before after : ShardRouter}
    (changed : before.ChangedAt touched after) (placed : before.Placed)
    : after.Placed := by
  intro index key found
  rw [changed.shardIndex]
  by_contra elsewhere
  rw [changed.lookup index key fun _ => elsewhere] at found
  exact elsewhere (placed index key found)

theorem placed_construct (totalMemory exponent : ℕ)
    : (construct totalMemory exponent).Placed := by
  intro index key found
  simp only [lookupAt, construct, List.getElem?_replicate] at found
  split at found
  · simp at found
  · cases found

/-- Of keys in their places, the shards together have what each shard has in its own. -/
theorem Placed.exists_lookupAt {router : ShardRouter} (placed : router.Placed) (key : Bytes)
    (value : CacheAlignedValue)
    : (∃ index, router.lookupAt index key = some value) ↔ router.entry key = some value := by
  constructor
  · intro found
    obtain ⟨index, found⟩ := found
    have here := placed index key (by rw [found]; rfl)
    rwa [here, lookupAt_shardIndex] at found
  · intro found
    exact ⟨router.shardIndex key, by rw [lookupAt_shardIndex, found]⟩

/-- The sweeper removes at most the entry of its key, where that has its place. -/
theorem changedAt_evictExpired (router : ShardRouter) (now : Int) (key : Bytes)
    : router.ChangedAt (some key = some ·) (router.evictExpired now key).2 :=
  .putShard (Shard.changedAt_evictExpired now key _)

end ShardRouter

/-- A tick changes the keys that it sweeps at most, by induction on them. -/
theorem TimingWheel.changedAt_sweepEntries (clock : ℕ → Int) (keys : List Bytes)
    (router : ShardRouter) (aof : AofLogger)
    : router.ChangedAt (· ∈ keys) (sweepEntries clock keys router aof).1 := by
  induction keys generalizing clock router aof with
  | nil => exact .refl _ router
  | cons key rest ih =>
      apply ((router.changedAt_evictExpired (clock 0) key).trans (ih _ _ _)).mono
      intro other touched
      rcases touched with own | later
      · exact Option.some.inj own ▸ List.mem_cons_self
      · exact List.mem_cons_of_mem _ later

/-- An operation changes entries in their places. -/
theorem StoreOperation.changedAt (operation : StoreOperation) (store : ShardRouter × AofLogger)
    : store.1.ChangedAt (fun _ => True) (operation.perform store).2.1 := by
  cases operation with
  | command now command =>
      exact (command.changedAt .none now store.1 store.2).mono fun _ _ => trivial
  | advanceTick clock wheel =>
      exact (TimingWheel.changedAt_sweepEntries clock _ store.1 store.2).mono fun _ _ => trivial

-----------------------------------------------------------------------------------------
-- Two routers with the same entries
-----------------------------------------------------------------------------------------

/-- Two stores have the same entries and the same log. -/
structure SameEntries (left right : ShardRouter × AofLogger) : Prop where
  entry : ∀ key, left.1.entry key = right.1.entry key
  aof : left.2 = right.2

namespace SameEntries

variable {left right : ShardRouter × AofLogger}

theorem command (same : SameEntries left right) (now : Int) (command : ICommand)
    : (command.execute .none now left.1 left.2).reply
        = (command.execute .none now right.1 right.2).reply
      ∧ SameEntries
          ((command.execute .none now left.1 left.2).router,
            (command.execute .none now left.1 left.2).aof)
          ((command.execute .none now right.1 right.2).router,
            (command.execute .none now right.1 right.2).aof) := by
  have done := command.realizes left.1 left.2 now
  have done' := command.realizes right.1 right.2 now
  have entryIn : command.entryIn left.1 = command.entryIn right.1 := by
    unfold ICommand.entryIn
    rw [show left.1.entry = right.1.entry from funext same.entry]
  refine ⟨?_, ?_, ?_⟩
  · rw [done.reply, done'.reply, entryIn]
  · intro key
    rw [done.entry, done'.entry, entryIn, same.entry]
  · rw [done.aof, done'.aof, entryIn, same.aof]

theorem sweepEntry (same : SameEntries left right) (now : Int) (key : Bytes)
    : SameEntries (TimingWheel.sweepEntry now key left.1 left.2)
        (TimingWheel.sweepEntry now key right.1 right.2) where
  entry other := by
    dsimp only [TimingWheel.sweepEntry]
    rw [ShardRouter.entry_evictExpired, ShardRouter.entry_evictExpired, same.entry, same.entry]
  aof := by
    dsimp only [TimingWheel.sweepEntry]
    rw [ShardRouter.evictExpired_fst, ShardRouter.evictExpired_fst, same.entry, same.aof]

/-- A whole tick, by induction on the keys that it sweeps. -/
theorem sweepEntries (same : SameEntries left right) (clock : ℕ → Int) (keys : List Bytes)
    : SameEntries (TimingWheel.sweepEntries clock keys left.1 left.2)
        (TimingWheel.sweepEntries clock keys right.1 right.2) := by
  induction keys generalizing clock left right with
  | nil => exact same
  | cons key rest ih => exact ih (same.sweepEntry (clock 0) key) _

theorem perform (same : SameEntries left right) (operation : StoreOperation)
    : (operation.perform left).1 = (operation.perform right).1
      ∧ SameEntries (operation.perform left).2 (operation.perform right).2 := by
  cases operation with
  | command now command =>
      obtain ⟨reply, next⟩ := same.command now command
      exact ⟨congrArg some reply, next⟩
  | advanceTick clock wheel => exact ⟨rfl, same.sweepEntries clock _⟩

end SameEntries

/-- Over any run the replies, the log and the map that the shards hold together are the same
for every number of shards, and each key is in the one shard that its hash selects.
-/
theorem sharding_transparent (totalMemory totalMemory' exponent exponent' : ℕ)
    (aof : AofLogger) (operations : List StoreOperation)
    : let left :=
        Lockstep.run StoreOperation.perform operations (.construct totalMemory exponent, aof)
      let right :=
        Lockstep.run StoreOperation.perform operations (.construct totalMemory' exponent', aof)
      left.1 = right.1
        ∧ left.2.2 = right.2.2
        ∧ (∀ key value,
            (∃ index, left.2.1.lookupAt index key = some value)
              ↔ ∃ index, right.2.1.lookupAt index key = some value)
        ∧ left.2.1.Placed
        ∧ right.2.1.Placed := by
  intro left right
  have start
      : SameEntries (.construct totalMemory exponent, aof) (.construct totalMemory' exponent', aof) :=
    ⟨by simp, rfl⟩
  obtain ⟨replies, same⟩ :=
    @Lockstep.run_eq _ _ _ _ StoreOperation.perform StoreOperation.perform SameEntries
      (fun operation _ _ same => same.perform operation) operations _ _ start
  have placed (memory shards : ℕ)
      : (Lockstep.run StoreOperation.perform operations (.construct memory shards, aof)).2.1.Placed :=
    @Lockstep.run_invariant _ _ _ StoreOperation.perform (fun store => store.1.Placed)
      (fun operation store placed => (operation.changedAt store).placed placed) operations _
      (ShardRouter.placed_construct memory shards)
  refine ⟨replies, same.aof, fun key value => ?_, placed _ _, placed _ _⟩
  rw [(placed _ _).exists_lookupAt, (placed _ _).exists_lookupAt, same.entry]

end InMemoryDB
