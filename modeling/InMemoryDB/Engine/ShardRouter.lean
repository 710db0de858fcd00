import InMemoryDB.Engine.Hasher
import InMemoryDB.Engine.Shard
import Mathlib.Data.Nat.Bitwise

/-! Routing of keys to shards, and the map from keys to entries that all shards hold
together.
-/

namespace InMemoryDB

/-- The shards of a server. Their number is a power of two, as masking needs it. -/
structure ShardRouter where
  shards : List Shard
  powerOfTwo : ∃ exponent, shards.length = 2 ^ exponent

namespace ShardRouter

def shardCount (router : ShardRouter) : ℕ := router.shards.length

def shardMask (router : ShardRouter) : ℕ := router.shardCount - 1

def shardIndex (router : ShardRouter) (key : Bytes) : ℕ :=
  (murmurHash3 key).toNat &&& router.shardMask

/-- The mask keeps an index below the number of shards. -/
theorem shardIndex_lt (router : ShardRouter) (key : Bytes)
    : router.shardIndex key < router.shards.length := by
  obtain ⟨exponent, count⟩ := router.powerOfTwo
  rw [shardIndex, shardMask, shardCount, count, Nat.and_two_pow_sub_one_eq_mod]
  exact Nat.mod_lt _ (Nat.two_pow_pos exponent)

def shardForKey (router : ShardRouter) (key : Bytes) : Shard :=
  router.shards.get ⟨router.shardIndex key, router.shardIndex_lt key⟩

/-- The router after a change to the shard of a key, which the source makes in place. -/
def putShard (router : ShardRouter) (key : Bytes) (shard : Shard) : ShardRouter where
  shards := router.shards.set (router.shardIndex key) shard
  powerOfTwo := by simpa only [List.length_set] using router.powerOfTwo

/-- A constructed router: the memory split evenly over fresh shards. -/
def construct (totalMemory exponent : ℕ) : ShardRouter where
  shards := List.replicate (2 ^ exponent) { arenaCapacity := totalMemory / 2 ^ exponent }
  powerOfTwo := ⟨exponent, List.length_replicate⟩

def set (refusals : Refusals) (now : Int) (key value : Bytes) (ttl : Int)
    (router : ShardRouter)
    : Bool × ShardRouter :=
  let (stored, shard) := (router.shardForKey key).set refusals now key value ttl
  (stored, router.putShard key shard)

def get (now : Int) (key : Bytes) (router : ShardRouter) : Option Bytes :=
  (router.shardForKey key).get now key

def del (key : Bytes) (router : ShardRouter) : Bool × ShardRouter :=
  let (removed, shard) := (router.shardForKey key).del key
  (removed, router.putShard key shard)

def «exists» (now : Int) (key : Bytes) (router : ShardRouter) : Bool :=
  (router.shardForKey key).exists now key

/-- The sweeper's removal of one key, under the lock of its shard. -/
def evictExpired (now : Int) (key : Bytes) (router : ShardRouter) : Bool × ShardRouter :=
  let (evicted, shard) := (router.shardForKey key).evictExpired now key
  (evicted, router.putShard key shard)

-----------------------------------------------------------------------------------------
-- The map that the shards hold together
-----------------------------------------------------------------------------------------

/-- The entry of a key, in the shard its hash selects. -/
def entry (router : ShardRouter) (key : Bytes) : Option CacheAlignedValue :=
  (router.shardForKey key).data.lookup key

@[simp] theorem shardIndex_putShard (router : ShardRouter) (key other : Bytes)
    (shard : Shard)
    : (router.putShard key shard).shardIndex other = router.shardIndex other := by
  simp [shardIndex, shardMask, shardCount, putShard]

/-- A changed shard is read back by the keys it serves; the others keep theirs. -/
theorem shardForKey_putShard (router : ShardRouter) (key other : Bytes) (shard : Shard)
    : (router.putShard key shard).shardForKey other
      = if router.shardIndex key = router.shardIndex other then shard
        else router.shardForKey other := by
  simp only [shardForKey, List.get_eq_getElem, shardIndex_putShard]
  simp only [putShard, List.getElem_set]

@[simp] theorem putShard_shardForKey (router : ShardRouter) (key : Bytes)
    : router.putShard key (router.shardForKey key) = router := by
  cases router
  simp [putShard, shardForKey]

/-- A shard that differs at one key only changes the entry of that key only. -/
theorem entry_putShard {router : ShardRouter} {key : Bytes} {shard : Shard}
    (frame
      : ∀ other,
          other ≠ key
          → shard.data.lookup other = (router.shardForKey key).data.lookup other)
    (other : Bytes)
    : (router.putShard key shard).entry other
      = if other = key then shard.data.lookup key else router.entry other := by
  unfold entry
  rw [shardForKey_putShard]
  by_cases same : other = key
  · subst other
    simp
  · by_cases routed : router.shardIndex key = router.shardIndex other
    · have shared : router.shardForKey key = router.shardForKey other := by
        simp only [shardForKey, routed]
      simp only [routed, same, if_true, if_false, frame other same, shared]
    · simp only [routed, same, if_false]

@[simp] theorem entry_construct (totalMemory exponent : ℕ) (key : Bytes)
    : (construct totalMemory exponent).entry key = none := by
  simp [entry, shardForKey, construct]

-----------------------------------------------------------------------------------------
-- All places of a key
-----------------------------------------------------------------------------------------

/-- What the shard with an index has under a key, whether or not its hash selects it. -/
def lookupAt (router : ShardRouter) (index : ℕ) (key : Bytes) : Option CacheAlignedValue :=
  router.shards[index]?.bind fun shard => shard.data.lookup key

theorem lookupAt_shardIndex (router : ShardRouter) (key : Bytes)
    : router.lookupAt (router.shardIndex key) key = router.entry key := by
  rw [lookupAt, List.getElem?_eq_getElem (router.shardIndex_lt key)]
  rfl

/-- Nothing is different but, at most, what some keys have in the places that their hashes
select.
-/
structure ChangedAt (touched : Bytes → Prop) (before after : ShardRouter) : Prop where
  count : after.shards.length = before.shards.length
  capacity
    : ∀ index : ℕ,
        after.shards[index]?.map Shard.arenaCapacity
          = before.shards[index]?.map Shard.arenaCapacity
  lookup
    : ∀ index key,
        (touched key → index ≠ before.shardIndex key)
        → after.lookupAt index key = before.lookupAt index key

/-- Two routers with the same memory and the same entries in all places are the same. -/
theorem ext_lookupAt {left right : ShardRouter}
    (count : left.shards.length = right.shards.length)
    (capacity
      : ∀ index : ℕ,
          left.shards[index]?.map Shard.arenaCapacity
            = right.shards[index]?.map Shard.arenaCapacity)
    (lookup : ∀ index key, left.lookupAt index key = right.lookupAt index key)
    : left = right := by
  obtain ⟨shards, powerOfTwo⟩ := left
  obtain ⟨shards', powerOfTwo'⟩ := right
  have same : shards = shards' := by
    refine List.ext_getElem count fun index here here' => ?_
    have sizes := capacity index
    have entries := lookup index
    simp only [lookupAt, List.getElem?_eq_getElem here, List.getElem?_eq_getElem here',
      Option.map_some, Option.some.injEq, Option.bind_some] at sizes entries
    exact Shard.ext sizes (Finmap.ext_lookup entries)
  subst shards'
  rfl

namespace ChangedAt

variable {touched others : Bytes → Prop} {before middle after : ShardRouter}

theorem refl (touched : Bytes → Prop) (router : ShardRouter) : ChangedAt touched router router :=
  ⟨rfl, fun _ => rfl, fun _ _ _ => rfl⟩

theorem shardIndex (changed : ChangedAt touched before after) (key : Bytes)
    : after.shardIndex key = before.shardIndex key := by
  simp only [ShardRouter.shardIndex, shardMask, shardCount, changed.count]

/-- One change after another. -/
theorem trans (first : ChangedAt touched before middle) (second : ChangedAt others middle after)
    : ChangedAt (fun key => touched key ∨ others key) before after where
  count := second.count.trans first.count
  capacity index := (second.capacity index).trans (first.capacity index)
  lookup index key elsewhere := by
    have later := second.lookup index key fun own =>
      first.shardIndex key ▸ elsewhere (.inr own)
    exact later.trans (first.lookup index key fun own => elsewhere (.inl own))

theorem mono (changed : ChangedAt touched before after)
    (more : ∀ key, touched key → others key)
    : ChangedAt others before after :=
  { changed with
    lookup := fun index key elsewhere =>
      changed.lookup index key fun own => elsewhere (more key own) }

/-- The other keys keep their entries. -/
theorem entry (changed : ChangedAt touched before after) {key : Bytes} (other : ¬ touched key)
    : after.entry key = before.entry key := by
  rw [← lookupAt_shardIndex, ← lookupAt_shardIndex, changed.shardIndex]
  exact changed.lookup _ key fun own => absurd own other

/-- A shard that differs at one key is a change at that key. -/
theorem putShard {router : ShardRouter} {key : Bytes} {shard : Shard}
    (changed : (router.shardForKey key).ChangedAt key shard)
    : ChangedAt (some key = some ·) router (router.putShard key shard) where
  count := List.length_set
  capacity index := by
    simp only [ShardRouter.putShard, List.getElem?_set, router.shardIndex_lt key, if_true]
    split
    · rename_i same
      rw [← same, List.getElem?_eq_getElem (router.shardIndex_lt key)]
      exact congrArg some changed.capacity
    · rfl
  lookup index other elsewhere := by
    simp only [lookupAt, ShardRouter.putShard, List.getElem?_set, router.shardIndex_lt key,
      if_true]
    split
    · rename_i same
      have different : other ≠ key := by
        intro own
        subst other
        exact elsewhere rfl same.symm
      rw [← same, List.getElem?_eq_getElem (router.shardIndex_lt key)]
      exact changed.frame other different
    · rfl

/-- Where two changes of one router leave the same entries, they leave the same router. -/
theorem eq_of_entry {left right : ShardRouter} (changed : ChangedAt touched before left)
    (changed' : ChangedAt others before right)
    (same : ∀ key, left.entry key = right.entry key)
    : left = right := by
  refine ext_lookupAt (changed.count.trans changed'.count.symm)
    (fun index => (changed.capacity index).trans (changed'.capacity index).symm)
    fun index key => ?_
  by_cases own : index = before.shardIndex key
  · have here := same key
    rw [← lookupAt_shardIndex, ← lookupAt_shardIndex, changed.shardIndex, changed'.shardIndex,
      ← own] at here
    exact here
  · exact (changed.lookup index key fun _ => own).trans
      (changed'.lookup index key fun _ => own).symm

end ChangedAt

end ShardRouter

end InMemoryDB
