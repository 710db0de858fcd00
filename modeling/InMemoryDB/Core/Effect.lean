import InMemoryDB.Core.Command
import InMemoryDB.Daemons.TimingWheel

/-! A command acts on the entry of its own key and on no other. With memory for every
write, its reply, the new entry and whether it is logged depend on that entry alone.
-/

namespace InMemoryDB

/-- What a command makes of the entry of its key. -/
structure Effect where
  reply : Bytes
  entry : Option CacheAlignedValue
  logged : Bool

/-- A command of a client, or the eviction of a key by the sweeper. -/
inductive StoreStep where
  | command (command : ICommand)
  | evict (key : Bytes)
  deriving DecidableEq

/-- The entry under a key, if the commands would still use it. -/
def liveEntry (now : Int) (entry : Option CacheAlignedValue) : Option CacheAlignedValue :=
  entry.filter fun value => value.isLive now

@[simp] theorem liveEntry_none (now : Int) : liveEntry now none = none := rfl

theorem liveEntry_some (now : Int) (value : CacheAlignedValue)
    : liveEntry now (some value) = if value.isLive now then some value else none := rfl

/-- A live entry is the entry itself, neither tombstoned nor expired. -/
theorem eq_some_of_liveEntry {entry : Option CacheAlignedValue} {now : Int}
    {found : CacheAlignedValue} (live : liveEntry now entry = some found)
    : entry = some found ∧ found.tombstoned = false ∧ found.isExpired now = false := by
  obtain ⟨present, alive⟩ := Option.filter_eq_some_iff.mp live
  exact ⟨present, by simpa [CacheAlignedValue.isLive] using alive⟩

/-- Where the sweeper finds nothing to remove, an entry is live or absent. -/
theorem liveEntry_of_any {entry : Option CacheAlignedValue} {now : Int}
    : (if entry.any fun value => !value.isLive now then none else entry)
      = liveEntry now entry := by
  cases entry with
  | none => rfl
  | some value => cases live : value.isLive now <;> simp [liveEntry_some, live]

namespace ICommand

/-- The effect of a command whose writes are given memory. -/
def effect (now : Int) (entry : Option CacheAlignedValue) : ICommand → Effect
  | .set _ value ttl => ⟨okReply, some (.new (.string value) ttl now), true⟩
  | .get _ =>
      match liveEntry now entry with
      | none => ⟨nullReply, entry, false⟩
      | some value => ⟨bulkReply (Shard.rendered value.data), entry, false⟩
  | .del _ =>
      match entry with
      | none => ⟨integerReply 0, entry, false⟩
      | some value =>
          if value.tombstoned then ⟨integerReply 0, entry, false⟩
          else ⟨integerReply 1, some { value with tombstoned := true }, true⟩
  | .exists _ => ⟨integerReply (if (liveEntry now entry).isSome then 1 else 0), entry, false⟩
  | .ping => ⟨pongReply, entry, false⟩
  | .lpush _ value ttl =>
      match liveEntry now entry with
      | none => ⟨integerReply 1, some (.new (.list [value]) ttl now), true⟩
      | some found =>
          match found.data with
          | .list items =>
              ⟨integerReply (items ++ [value]).length,
                some { found with data := .list (items ++ [value]) }, true⟩
          | _ => ⟨wrongTypeReply, entry, false⟩
  | .lrange _ start stop =>
      match liveEntry now entry with
      | none => ⟨emptyArrayReply, entry, false⟩
      | some found =>
          match found.data with
          | .list items => ⟨LRangeCommand.slice items start stop, entry, false⟩
          | _ => ⟨wrongTypeReply, entry, false⟩
  | .hset _ field value ttl =>
      match liveEntry now entry with
      | none =>
          ⟨integerReply 1, some (.new (.hash (Finmap.insert field value ∅)) ttl now), true⟩
      | some found =>
          match found.data with
          | .hash fields =>
              ⟨integerReply (if (fields.lookup field).isNone then 1 else 0),
                some { found with data := .hash (fields.insert field value) }, true⟩
          | _ => ⟨wrongTypeReply, entry, false⟩
  | .hget _ field =>
      match liveEntry now entry with
      | none => ⟨nullReply, entry, false⟩
      | some found =>
          match found.data with
          | .hash fields =>
              match fields.lookup field with
              | none => ⟨nullReply, entry, false⟩
              | some value => ⟨bulkReply value, entry, false⟩
          | _ => ⟨wrongTypeReply, entry, false⟩

/-- A command that is no write leaves the entry as it is and is not logged. -/
theorem effect_of_read {command : ICommand} (reads : command.isWrite = false) (now : Int)
    (entry : Option CacheAlignedValue)
    : ∃ reply, command.effect now entry = ⟨reply, entry, false⟩ := by
  cases command with
  | get key =>
      unfold effect
      cases liveEntry now entry <;> exact ⟨_, rfl⟩
  | «exists» | ping => exact ⟨_, rfl⟩
  | lrange key start stop =>
      unfold effect
      cases liveEntry now entry with
      | none => exact ⟨_, rfl⟩
      | some found =>
          dsimp only
          cases found.data <;> exact ⟨_, rfl⟩
  | hget key field =>
      unfold effect
      cases liveEntry now entry with
      | none => exact ⟨_, rfl⟩
      | some found =>
          dsimp only
          cases found.data with
          | hash fields =>
              dsimp only
              cases fields.lookup field <;> exact ⟨_, rfl⟩
          | string _ | integer _ | list _ => exact ⟨_, rfl⟩
  | set | del | lpush | hset => cases reads

/-- The type of container that a command adds to. -/
def container : ICommand → Option ValueType
  | .lpush .. => some .list
  | .hset .. => some .hash
  | _ => none

theorem container_cases {command : ICommand} {kind : ValueType}
    (adds : command.container = some kind)
    : kind = .list ∨ kind = .hash := by
  cases command with
  | lpush => exact .inl (Option.some.inj adds).symm
  | hset => exact .inr (Option.some.inj adds).symm
  | set | get | del | «exists» | ping | lrange | hget => cases adds

/-- The time to live that a command gives to what it makes. -/
def ttl : ICommand → Int
  | .set _ _ ttl | .lpush _ _ ttl | .hset _ _ _ ttl => ttl
  | _ => defaultTtl

/-- A command that adds to a container makes a new one where nothing is live, and changes one
of its type in place; anything else is the wrong type for it and stays as it is.
-/
theorem effect_of_container {command : ICommand} {kind : ValueType}
    (adds : command.container = some kind) (now : Int) (entry : Option CacheAlignedValue)
    : (∃ data,
          liveEntry now entry = none
          ∧ data.type = kind
          ∧ command.effect now entry
            = ⟨integerReply 1, some (.new data command.ttl now), true⟩)
      ∨ (∃ found data number,
          liveEntry now entry = some found
          ∧ found.type = kind
          ∧ data.type = kind
          ∧ command.effect now entry
            = ⟨integerReply number, some { found with data := data }, true⟩)
      ∨ (∃ found,
          liveEntry now entry = some found
          ∧ found.type ≠ kind
          ∧ command.effect now entry = ⟨wrongTypeReply, entry, false⟩) := by
  cases command with
  | lpush key value ttl =>
      obtain rfl := Option.some.inj adds
      unfold effect
      cases live : liveEntry now entry with
      | none => exact .inl ⟨.list [value], rfl, rfl, rfl⟩
      | some found =>
          cases holds : found.data with
          | list items =>
              refine .inr (.inl ⟨found, .list (items ++ [value]), (items ++ [value]).length, rfl,
                ?_, rfl, ?_⟩)
              · simp [CacheAlignedValue.type, holds, ValueVariant.type]
              · simp only [holds]
          | string _ | integer _ | hash _ =>
              refine .inr (.inr ⟨found, rfl, ?_, ?_⟩)
              · simp [CacheAlignedValue.type, holds, ValueVariant.type]
              · simp only [holds]
  | hset key field value ttl =>
      obtain rfl := Option.some.inj adds
      unfold effect
      cases live : liveEntry now entry with
      | none => exact .inl ⟨.hash (Finmap.insert field value ∅), rfl, rfl, rfl⟩
      | some found =>
          cases holds : found.data with
          | hash fields =>
              refine .inr (.inl ⟨found, .hash (fields.insert field value),
                if (fields.lookup field).isNone then 1 else 0, rfl, ?_, rfl, ?_⟩)
              · simp [CacheAlignedValue.type, holds, ValueVariant.type]
              · simp only [holds]
          | string _ | integer _ | list _ =>
              refine .inr (.inr ⟨found, rfl, ?_, ?_⟩)
              · simp [CacheAlignedValue.type, holds, ValueVariant.type]
              · simp only [holds]
  | set | get | del | «exists» | ping | lrange | hget => cases adds

/-- All that a command can do to the entry of its key. -/
inductive Acts (now : Int) (entry : Option CacheAlignedValue) : ICommand → Effect → Prop
  | kept {command} (reply : Bytes) : Acts now entry command ⟨reply, entry, false⟩
  | written {key value ttl}
    : Acts now entry (.set key value ttl)
        ⟨okReply, some (.new (.string value) ttl now), true⟩
  | deleted {key value} (present : entry = some value) (kept : value.tombstoned = false)
    : Acts now entry (.del key)
        ⟨integerReply 1, some { value with tombstoned := true }, true⟩
  | made {command kind data} (adds : command.container = some kind)
    (absent : liveEntry now entry = none) (type : data.type = kind)
    : Acts now entry command ⟨integerReply 1, some (.new data command.ttl now), true⟩
  | added {command kind found data number} (adds : command.container = some kind)
    (live : liveEntry now entry = some found) (same : found.type = kind)
    (type : data.type = kind)
    : Acts now entry command ⟨integerReply number, some { found with data := data }, true⟩

/-- The effect of a command is one of these, by cases on the command. -/
theorem acts (command : ICommand) (now : Int) (entry : Option CacheAlignedValue)
    : command.Acts now entry (command.effect now entry) := by
  have container {kind : ValueType} (adds : command.container = some kind)
      : command.Acts now entry (command.effect now entry) := by
    rcases effect_of_container adds now entry with
      ⟨data, absent, type, same⟩ | ⟨found, data, number, live, kept, type, same⟩
      | ⟨found, live, different, same⟩
    · rw [same]
      exact .made adds absent type
    · rw [same]
      exact .added adds live kept type
    · rw [same]
      exact .kept _
  cases writes : command.isWrite with
  | false =>
      obtain ⟨reply, same⟩ := effect_of_read writes now entry
      rw [same]
      exact .kept reply
  | true =>
      cases command with
      | set => exact .written
      | del key =>
          unfold effect
          cases entry with
          | none => exact .kept _
          | some value =>
              cases dead : value.tombstoned with
              | true =>
                  simp only [dead, if_true]
                  exact .kept _
              | false =>
                  simp only [dead, Bool.false_eq_true, if_false]
                  exact .deleted rfl dead
      | lpush | hset => exact container rfl
      | get | «exists» | ping | lrange | hget => cases writes

/-- A command that is not logged leaves the entry as it is. -/
theorem effect_of_unlogged {command : ICommand} {now : Int} {entry : Option CacheAlignedValue}
    (silent : (command.effect now entry).logged = false)
    : (command.effect now entry).entry = entry := by
  have acts := command.acts now entry
  generalize command.effect now entry = effect at acts silent
  cases acts with
  | kept => rfl
  | written | deleted | made | added => cases silent

/-- A command leaves an entry of its own time, or one that was there before with its lifetime. -/
theorem lifetime_effect {command : ICommand} {now : Int} {entry : Option CacheAlignedValue}
    {value : CacheAlignedValue} (left : (command.effect now entry).entry = some value)
    : value.createdAt = now
      ∨ ∃ earlier,
          entry = some earlier
          ∧ value.createdAt = earlier.createdAt
          ∧ value.ttlSeconds = earlier.ttlSeconds := by
  have acts := command.acts now entry
  generalize command.effect now entry = effect at acts left
  cases acts with
  | kept => exact .inr ⟨value, left, rfl, rfl⟩
  | written | made =>
      obtain rfl := Option.some.inj left
      exact .inl rfl
  | deleted present =>
      obtain rfl := Option.some.inj left
      exact .inr ⟨_, present, rfl, rfl⟩
  | added _ live =>
      obtain rfl := Option.some.inj left
      exact .inr ⟨_, (Option.filter_eq_some_iff.mp live).1, rfl, rfl⟩

/-- An entry that is not of the command's own time was made when one before it was. -/
theorem createdAt_effect {command : ICommand} {now : Int} {entry : Option CacheAlignedValue}
    {value : CacheAlignedValue} (left : (command.effect now entry).entry = some value)
    : value.createdAt = now
      ∨ ∃ earlier, entry = some earlier ∧ value.createdAt = earlier.createdAt :=
  (lifetime_effect left).imp_right fun ⟨earlier, present, created, _⟩ =>
    ⟨earlier, present, created⟩

/-- Commands put no entry into the future. -/
theorem past_effect {command : ICommand} {now : Int} {entry : Option CacheAlignedValue}
    (past : ∀ value, entry = some value → value.createdAt ≤ now)
    : ∀ value, (command.effect now entry).entry = some value → value.createdAt ≤ now := by
  intro value left
  rcases createdAt_effect left with fresh | ⟨earlier, present, same⟩
  · exact fresh.le
  · exact same.le.trans (past earlier present)

/-- The entry of a command's key; `PING` has none. -/
def entryIn (router : ShardRouter) (command : ICommand) : Option CacheAlignedValue :=
  command.key?.bind router.entry

end ICommand

-----------------------------------------------------------------------------------------
-- Operations of a shard, seen from the entry of their key
-----------------------------------------------------------------------------------------

namespace ShardRouter

theorem findLive_shardForKey (router : ShardRouter) (now : Int) (key : Bytes)
    : (router.shardForKey key).findLive now key = liveEntry now (router.entry key) := rfl

/-- A shard that gets one new entry changes the router at that key only. -/
theorem entry_putShard_insert (router : ShardRouter) (key other : Bytes)
    (entry : CacheAlignedValue) (capacity : ℕ)
    : (router.putShard key
          ⟨capacity, (router.shardForKey key).data.insert key entry⟩).entry other
      = if other = key then some entry else router.entry other := by
  rw [entry_putShard fun other different => Finmap.lookup_insert_of_ne _ different,
    Finmap.lookup_insert]

theorem set_eq (router : ShardRouter) (now : Int) (key value : Bytes) (ttl : Int)
    : router.set .none now key value ttl
      = (true,
        router.putShard key
          ⟨(router.shardForKey key).arenaCapacity,
            (router.shardForKey key).data.insert key (.new (.string value) ttl now)⟩) := rfl

theorem get_eq (router : ShardRouter) (now : Int) (key : Bytes)
    : router.get now key
      = (liveEntry now (router.entry key)).map fun value => Shard.rendered value.data := by
  unfold get Shard.get entry
  cases (router.shardForKey key).data.lookup key with
  | none => rfl
  | some value =>
      simp only [CacheAlignedValue.not_isLive, liveEntry_some]
      cases value.isLive now <;> rfl

theorem exists_eq (router : ShardRouter) (now : Int) (key : Bytes)
    : router.exists now key = (liveEntry now (router.entry key)).isSome := by
  unfold «exists» Shard.exists entry
  cases (router.shardForKey key).data.lookup key with
  | none => rfl
  | some value =>
      have same : (!value.isExpired now && !value.tombstoned) = value.isLive now :=
        Bool.and_comm _ _
      simp only [same, liveEntry_some]
      cases value.isLive now <;> rfl

/-- An eviction changes the entry of its own key only, and leaves it if it is live. -/
theorem entry_evictExpired (router : ShardRouter) (now : Int) (key other : Bytes)
    : (router.evictExpired now key).2.entry other
      = if other = key then liveEntry now (router.entry key) else router.entry other := by
  unfold evictExpired Shard.evictExpired
  cases found : (router.shardForKey key).data.lookup key with
  | none =>
      have absent : router.entry key = none := found
      by_cases same : other = key
      · simp [same, absent, liveEntry]
      · simp [same]
  | some value =>
      have present : router.entry key = some value := found
      rw [present, liveEntry_some]
      cases live : value.isLive now with
      | true =>
          by_cases same : other = key
          · simp [CacheAlignedValue.not_isLive, live, same, present]
          · simp [CacheAlignedValue.not_isLive, live, same]
      | false =>
          simp only [CacheAlignedValue.not_isLive, live, Bool.not_false, if_true]
          rw [entry_putShard fun other different => Finmap.lookup_erase_ne different,
            Finmap.lookup_erase]
          rfl

/-- An eviction succeeds exactly on an entry that is not live. -/
theorem evictExpired_fst (router : ShardRouter) (now : Int) (key : Bytes)
    : (router.evictExpired now key).1
      = (router.entry key).any fun value => !value.isLive now := by
  unfold evictExpired Shard.evictExpired entry
  cases (router.shardForKey key).data.lookup key with
  | none => rfl
  | some value =>
      simp only [CacheAlignedValue.not_isLive, Option.any_some]
      cases value.isLive now <;> rfl

end ShardRouter

-----------------------------------------------------------------------------------------
-- The execution of a command, seen from the entry of its key
-----------------------------------------------------------------------------------------

/-- An execution has the given effect on the command's key, logs the command if the effect
says so, and leaves every other key alone.
-/
structure Execution.Realizes (done : Execution) (command : ICommand) (effect : Effect)
    (router : ShardRouter) (aof : AofLogger)
    : Prop where
  reply : done.reply = effect.reply
  entry
    : ∀ other,
        done.router.entry other
          = if command.key? = some other then effect.entry else router.entry other
  aof
    : done.aof
      = if effect.logged then aof.logUnlessReplaying command.serialize else aof

section Realization

variable (router : ShardRouter) (aof : AofLogger) (now : Int)

/-- A command that only reads leaves the entry of its key and every other. -/
theorem Execution.realizes_of_read (command : ICommand) {effect : Effect} {reply : Bytes}
    (answered : reply = effect.reply) (kept : effect.entry = command.entryIn router)
    (silent : effect.logged = false)
    : Execution.Realizes ⟨reply, router, aof⟩ command effect router aof where
  reply := answered
  entry other := by
    split
    · rename_i same
      simp [kept, ICommand.entryIn, same]
    · rfl
  aof := by simp [silent]

/-- A command that writes one entry into the shard of its key changes that key only. -/
theorem Execution.realizes_of_write (command : ICommand) {effect : Effect}
    {reply key : Bytes} {entry : CacheAlignedValue} {capacity : ℕ} (own : command.key? = some key)
    (answered : reply = effect.reply) (written : effect.entry = some entry)
    (logged : effect.logged = true)
    : Execution.Realizes
        ⟨reply,
          router.putShard key ⟨capacity, (router.shardForKey key).data.insert key entry⟩,
          aof.logUnlessReplaying command.serialize⟩
        command effect router aof where
  reply := answered
  entry other := by
    rw [ShardRouter.entry_putShard_insert, own, written]
    simp only [Option.some.injEq, eq_comm]
  aof := by simp [logged]

theorem SetCommand.realizes (key value : Bytes) (ttl : Int)
    : (SetCommand.execute .none now key value ttl router aof).Realizes (.set key value ttl)
        ((ICommand.set key value ttl).effect now (router.entry key)) router aof := by
  rw [SetCommand.execute, ShardRouter.set_eq]
  exact Execution.realizes_of_write router aof _ rfl rfl rfl rfl

theorem GetCommand.realizes (key : Bytes)
    : (GetCommand.execute now key router aof).Realizes (.get key)
        ((ICommand.get key).effect now (router.entry key)) router aof := by
  rw [GetCommand.execute, ShardRouter.get_eq]
  cases found : liveEntry now (router.entry key) <;>
    exact Execution.realizes_of_read router aof _ (by simp [ICommand.effect, found])
      (by simp [ICommand.effect, found, ICommand.entryIn, ICommand.key?])
      (by simp [ICommand.effect, found])

theorem DelCommand.realizes (key : Bytes)
    : (DelCommand.execute key router aof).Realizes (.del key)
        ((ICommand.del key).effect now (router.entry key)) router aof := by
  unfold DelCommand.execute ShardRouter.del Shard.del
  cases found : (router.shardForKey key).data.lookup key with
  | none =>
      have absent : router.entry key = none := found
      simpa using Execution.realizes_of_read router aof (.del key)
        (by simp [ICommand.effect, absent])
        (by simp [ICommand.effect, absent, ICommand.entryIn, ICommand.key?])
        (by simp [ICommand.effect, absent])
  | some value =>
      have present : router.entry key = some value := found
      cases dead : value.tombstoned with
      | true =>
          simpa [dead] using Execution.realizes_of_read router aof (.del key)
            (by simp [ICommand.effect, present, dead])
            (by simp [ICommand.effect, present, dead, ICommand.entryIn, ICommand.key?])
            (by simp [ICommand.effect, present, dead])
      | false =>
          simpa [dead] using Execution.realizes_of_write router aof (.del key)
            rfl (by simp [ICommand.effect, present, dead])
            (by simp [ICommand.effect, present, dead])
            (by simp [ICommand.effect, present, dead])

theorem ExistsCommand.realizes (key : Bytes)
    : (ExistsCommand.execute now key router aof).Realizes (.exists key)
        ((ICommand.exists key).effect now (router.entry key)) router aof := by
  rw [ExistsCommand.execute, ShardRouter.exists_eq]
  exact Execution.realizes_of_read router aof _ rfl rfl rfl

/-- The section of `LPUSH` under its lock, when the arena refuses nothing. -/
theorem LPushCommand.guardedWrite_none (shard : Shard) (key value : Bytes) (ttl : Int)
    : shard.guardedWrite .none (tryPush .none now key value ttl)
      = match shard.findLive now key with
        | none =>
            ((integerReply 1, true),
              ⟨shard.arenaCapacity, shard.data.insert key (.new (.list [value]) ttl now)⟩)
        | some entry =>
            match entry.data with
            | .list items =>
                ((integerReply (items ++ [value]).length, true),
                  shard.replaceData key entry (.list (items ++ [value])))
            | _ => ((wrongTypeReply, false), shard) := by
  have section_eq : shard.guardedWrite .none (tryPush .none now key value ttl)
      = shard.guardedWrite .none
          (pushInto .none now key value ttl (shard.findLive now key)) := rfl
  rw [section_eq]
  cases shard.findLive now key with
  | none => rfl
  | some entry =>
      dsimp only [pushInto]
      cases entry.data <;> rfl

theorem LPushCommand.realizes (key value : Bytes) (ttl : Int)
    : (LPushCommand.execute .none now key value ttl router aof).Realizes
        (.lpush key value ttl) ((ICommand.lpush key value ttl).effect now (router.entry key))
        router aof := by
  rw [LPushCommand.execute, guardedWrite_none, ShardRouter.findLive_shardForKey]
  unfold ICommand.effect
  cases liveEntry now (router.entry key) with
  | none => exact Execution.realizes_of_write router aof _ rfl rfl rfl rfl
  | some found =>
      dsimp only
      cases kind : found.data with
      | list items => exact Execution.realizes_of_write router aof _ rfl rfl rfl rfl
      | string _ | integer _ | hash _ =>
          simp only [Bool.false_eq_true, if_false, ShardRouter.putShard_shardForKey]
          exact Execution.realizes_of_read router aof _ rfl rfl rfl

/-- The section of `HSET` under its lock, when the arena refuses nothing. -/
theorem HSetCommand.guardedWrite_none (shard : Shard) (key field value : Bytes) (ttl : Int)
    : shard.guardedWrite .none (trySet .none now key field value ttl)
      = match shard.findLive now key with
        | none =>
            ((integerReply 1, true),
              ⟨shard.arenaCapacity,
                shard.data.insert key
                  (.new (.hash (Finmap.insert field value ∅)) ttl now)⟩)
        | some entry =>
            match entry.data with
            | .hash fields =>
                ((integerReply (if (fields.lookup field).isNone then 1 else 0), true),
                  shard.replaceData key entry (.hash (fields.insert field value)))
            | _ => ((wrongTypeReply, false), shard) := by
  have section_eq : shard.guardedWrite .none (trySet .none now key field value ttl)
      = shard.guardedWrite .none
          (setFieldIn .none now key field value ttl (shard.findLive now key)) := rfl
  rw [section_eq]
  cases shard.findLive now key with
  | none => rfl
  | some entry =>
      dsimp only [setFieldIn]
      cases entry.data <;> rfl

theorem HSetCommand.realizes (key field value : Bytes) (ttl : Int)
    : (HSetCommand.execute .none now key field value ttl router aof).Realizes
        (.hset key field value ttl)
        ((ICommand.hset key field value ttl).effect now (router.entry key)) router aof := by
  rw [HSetCommand.execute, guardedWrite_none, ShardRouter.findLive_shardForKey]
  unfold ICommand.effect
  cases liveEntry now (router.entry key) with
  | none => exact Execution.realizes_of_write router aof _ rfl rfl rfl rfl
  | some found =>
      dsimp only
      cases kind : found.data with
      | hash fields => exact Execution.realizes_of_write router aof _ rfl rfl rfl rfl
      | string _ | integer _ | list _ =>
          simp only [Bool.false_eq_true, if_false, ShardRouter.putShard_shardForKey]
          exact Execution.realizes_of_read router aof _ rfl rfl rfl

theorem LRangeCommand.realizes (key : Bytes) (start stop : Int)
    : (LRangeCommand.execute now key start stop router aof).Realizes (.lrange key start stop)
        ((ICommand.lrange key start stop).effect now (router.entry key)) router aof := by
  rw [LRangeCommand.execute, ShardRouter.findLive_shardForKey]
  unfold ICommand.effect
  cases liveEntry now (router.entry key) with
  | none => exact Execution.realizes_of_read router aof _ rfl rfl rfl
  | some found =>
      dsimp only
      cases found.data <;> exact Execution.realizes_of_read router aof _ rfl rfl rfl

theorem HGetCommand.realizes (key field : Bytes)
    : (HGetCommand.execute now key field router aof).Realizes (.hget key field)
        ((ICommand.hget key field).effect now (router.entry key)) router aof := by
  rw [HGetCommand.execute, ShardRouter.findLive_shardForKey]
  unfold ICommand.effect
  cases liveEntry now (router.entry key) with
  | none => exact Execution.realizes_of_read router aof _ rfl rfl rfl
  | some found =>
      dsimp only
      cases found.data with
      | hash fields =>
          dsimp only
          cases fields.lookup field <;>
            exact Execution.realizes_of_read router aof _ rfl rfl rfl
      | string _ | integer _ | list _ =>
          exact Execution.realizes_of_read router aof _ rfl rfl rfl

/-- Every command with memory for its writes acts on the entry of its key as `effect` says,
by the lemma of its class.
-/
theorem ICommand.realizes (command : ICommand)
    : (command.execute .none now router aof).Realizes command
        (command.effect now (command.entryIn router)) router aof := by
  cases command with
  | set key value ttl => exact SetCommand.realizes router aof now key value ttl
  | get key => exact GetCommand.realizes router aof now key
  | del key => exact DelCommand.realizes router aof now key
  | «exists» key => exact ExistsCommand.realizes router aof now key
  | ping => exact Execution.realizes_of_read router aof _ rfl rfl rfl
  | lpush key value ttl => exact LPushCommand.realizes router aof now key value ttl
  | lrange key start stop => exact LRangeCommand.realizes router aof now key start stop
  | hset key field value ttl => exact HSetCommand.realizes router aof now key field value ttl
  | hget key field => exact HGetCommand.realizes router aof now key field

end Realization

-----------------------------------------------------------------------------------------
-- Writes that are refused memory
-----------------------------------------------------------------------------------------

theorem Shard.insertOrAssign_allOrNothing (refusals : Refusals) (key : Bytes)
    (entry : CacheAlignedValue)
    : (insertOrAssign refusals key entry).AllOrNothing (insertOrAssign .none key entry) :=
  .allocate refusals .node (.refl _)

theorem Shard.trySet_allOrNothing (refusals : Refusals) (now : Int) (key value : Bytes)
    (ttl : Int)
    : (trySet refusals now key value ttl).AllOrNothing (trySet .none now key value ttl) :=
  .allocate refusals .key
    (.allocate refusals .value (insertOrAssign_allOrNothing refusals key _))

theorem LPushCommand.tryPush_allOrNothing (refusals : Refusals) (now : Int)
    (key value : Bytes) (ttl : Int)
    : (tryPush refusals now key value ttl).AllOrNothing (tryPush .none now key value ttl) := by
  refine .allocate refusals .key fun shard => ?_
  have branches (found : Option CacheAlignedValue)
      : (pushInto refusals now key value ttl found).AllOrNothing
          (pushInto .none now key value ttl found) := by
    cases found with
    | none =>
        exact .allocate refusals .container
          (.allocate refusals .element
            (.bind (Shard.insertOrAssign_allOrNothing refusals key _) _))
    | some entry =>
        dsimp only [pushInto]
        cases entry.data with
        | list items => exact .allocate refusals .element (.refl _)
        | string _ | integer _ | hash _ => exact .refl _
  exact branches (shard.findLive now key) shard

theorem HSetCommand.trySet_allOrNothing (refusals : Refusals) (now : Int)
    (key field value : Bytes) (ttl : Int)
    : (trySet refusals now key field value ttl).AllOrNothing
        (trySet .none now key field value ttl) := by
  refine .allocate refusals .key fun shard => ?_
  have branches (found : Option CacheAlignedValue)
      : (setFieldIn refusals now key field value ttl found).AllOrNothing
          (setFieldIn .none now key field value ttl found) := by
    cases found with
    | none =>
        exact .allocate refusals .container
          (.allocate refusals .value
            (.allocate refusals .field
              (.allocate refusals .fieldNode
                (.bind (Shard.insertOrAssign_allOrNothing refusals key _) _))))
    | some entry =>
        dsimp only [setFieldIn]
        cases entry.data with
        | hash fields =>
            exact .allocate refusals .field
              (.allocate refusals .value (.allocate refusals .fieldNode (.refl _)))
        | string _ | integer _ | list _ => exact .refl _
  exact branches (shard.findLive now key) shard

theorem Shard.set_none_or_refused (refusals : Refusals) (now : Int) (key value : Bytes)
    (ttl : Int) (shard : Shard)
    : shard.set refusals now key value ttl = shard.set .none now key value ttl
      ∨ shard.set refusals now key value ttl = (false, shard) := by
  unfold Shard.set
  split
  · exact .inr rfl
  · rcases trySet_allOrNothing refusals now key value ttl shard with same | refused
    · exact .inl (by rw [same]; rfl)
    · exact .inr (by rw [refused])

theorem ShardRouter.set_none_or_refused (refusals : Refusals) (now : Int)
    (key value : Bytes) (ttl : Int) (router : ShardRouter)
    : router.set refusals now key value ttl = router.set .none now key value ttl
      ∨ router.set refusals now key value ttl = (false, router) := by
  unfold set
  rcases (router.shardForKey key).set_none_or_refused refusals now key value ttl with
    same | refused
  · exact .inl (by rw [same])
  · exact .inr (by rw [refused]; simp)

theorem Shard.guardedWrite_none_or_refused {body full : Guarded Shard (Bytes × Bool)}
    (refusals : Refusals) (shard : Shard) (whole : body.AllOrNothing full)
    : shard.guardedWrite refusals body = shard.guardedWrite .none full
      ∨ shard.guardedWrite refusals body = ((oomReply, false), shard) := by
  unfold guardedWrite
  split
  · exact .inr rfl
  · rcases whole shard with same | refused
    · exact .inl (by rw [same]; rfl)
    · exact .inr (by rw [refused])

/-- The commands that bring new data and ask for memory for it. -/
def ICommand.asksMemory : ICommand → Bool
  | .set .. | .lpush .. | .hset .. => true
  | _ => false

/-- A command either does what it would with memory for everything, or it asks for memory and
is refused as a whole: it replies so, changes nothing and is not logged. By cases on the
command.
-/
theorem ICommand.execute_none_or_refused (refusals : Refusals) (now : Int)
    (command : ICommand) (router : ShardRouter) (aof : AofLogger)
    : command.execute refusals now router aof = command.execute .none now router aof
      ∨ (command.asksMemory = true
        ∧ command.execute refusals now router aof = ⟨oomReply, router, aof⟩) := by
  cases command with
  | set key value ttl =>
      dsimp only [ICommand.execute]
      unfold SetCommand.execute
      rcases router.set_none_or_refused refusals now key value ttl with same | refused
      · exact .inl (by rw [same])
      · exact .inr ⟨rfl, by rw [refused]; rfl⟩
  | lpush key value ttl =>
      simp only [ICommand.execute, LPushCommand.execute]
      rcases (router.shardForKey key).guardedWrite_none_or_refused refusals
        (LPushCommand.tryPush_allOrNothing refusals now key value ttl) with same | refused
      · exact .inl (by rw [same])
      · exact .inr ⟨rfl, by simp [refused]⟩
  | hset key field value ttl =>
      simp only [ICommand.execute, HSetCommand.execute]
      rcases (router.shardForKey key).guardedWrite_none_or_refused refusals
        (HSetCommand.trySet_allOrNothing refusals now key field value ttl) with same | refused
      · exact .inl (by rw [same])
      · exact .inr ⟨rfl, by simp [refused]⟩
  | get _ | del _ | «exists» _ | ping | lrange _ _ _ | hget _ _ => exact .inl rfl

theorem integerReply_ne_nil (number : Int) : integerReply number ≠ [] := by
  simp [integerReply, crlf]

theorem bulkReply_ne_nil (text : Bytes) : bulkReply text ≠ [] := by
  simp [bulkReply, crlf]

theorem LRangeCommand.slice_ne_nil (items : List Bytes) (start stop : Int)
    : slice items start stop ≠ [] := by
  have either {condition : Prop} [Decidable condition] {first second : Bytes}
      (left : first ≠ []) (right : second ≠ [])
      : (if condition then first else second) ≠ [] := by
    split <;> assumption
  exact either (by decide) (by simp [crlf])

/-- Every reply has some text, by cases on the command. -/
theorem ICommand.effect_reply_ne_nil (command : ICommand) (now : Int)
    (entry : Option CacheAlignedValue)
    : (command.effect now entry).reply ≠ [] := by
  have container {kind : ValueType} (adds : command.container = some kind)
      : (command.effect now entry).reply ≠ [] := by
    rcases effect_of_container adds now entry with
      ⟨data, -, -, same⟩ | ⟨found, data, number, -, -, -, same⟩ | ⟨found, -, -, same⟩
    · rw [same]
      exact integerReply_ne_nil _
    · rw [same]
      exact integerReply_ne_nil _
    · rw [same]
      simp [wrongTypeReply, crlf]
  cases command with
  | set | ping => simp [effect, okReply, pongReply, crlf]
  | get key =>
      unfold effect
      cases liveEntry now entry with
      | none => simp [nullReply, crlf]
      | some value => exact bulkReply_ne_nil _
  | del key =>
      unfold effect
      cases entry with
      | none => exact integerReply_ne_nil _
      | some value => cases dead : value.tombstoned <;> simp [dead, integerReply_ne_nil]
  | «exists» key => exact integerReply_ne_nil _
  | lpush | hset => exact container rfl
  | lrange key start stop =>
      unfold effect
      cases liveEntry now entry with
      | none => simp [emptyArrayReply, crlf]
      | some found =>
          dsimp only
          cases found.data with
          | list items => exact LRangeCommand.slice_ne_nil _ _ _
          | string _ | integer _ | hash _ => simp [wrongTypeReply, crlf]
  | hget key field =>
      unfold effect
      cases liveEntry now entry with
      | none => simp [nullReply, crlf]
      | some found =>
          dsimp only
          cases found.data with
          | hash fields =>
              dsimp only
              cases fields.lookup field with
              | none => simp [nullReply, crlf]
              | some value => exact bulkReply_ne_nil _
          | string _ | integer _ | list _ => simp [wrongTypeReply, crlf]

theorem ICommand.reply_ne_nil (command : ICommand) (refusals : Refusals) (now : Int)
    (router : ShardRouter) (aof : AofLogger)
    : (command.execute refusals now router aof).reply ≠ [] := by
  rcases command.execute_none_or_refused refusals now router aof with same | ⟨-, refused⟩
  · rw [same, (command.realizes router aof now).reply]
    exact command.effect_reply_ne_nil _ _
  · rw [refused]
    simp [oomReply, crlf]

end InMemoryDB
