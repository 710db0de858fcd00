import InMemoryDB.Engine.ShardRouter

/-! The router on machine words: the constructor with the one check that it makes, and the mask
that takes the place of a remainder.
-/

namespace InMemoryDB

/-- What ends the constructor: its assertion, or a division that has no result. -/
inductive ConstructionFault where
  | assertion
  | divisionByZero
  deriving DecidableEq

/-- The members of a router as the source has them, with nothing known of the count. -/
structure RouterWords where
  shardCount : UInt64
  shardMask : UInt64
  shards : List Shard

namespace RouterWords

/-- The bit test of the constructor's assertion. -/
def PassesCheck (shardCount : UInt64) : Prop := shardCount &&& (shardCount - 1) = 0

instance (shardCount : UInt64) : Decidable (PassesCheck shardCount) :=
  inferInstanceAs (Decidable (_ = _))

/-- The constructor. A division by zero is undefined, so it has no router to show. -/
def construct (totalMemory shardCount : UInt64) : Except ConstructionFault RouterWords :=
  if ¬ PassesCheck shardCount then .error .assertion
  else if shardCount = 0 then .error .divisionByZero
  else
    let perShard := totalMemory / shardCount
    .ok
      {
        shardCount := shardCount,
        shardMask := shardCount - 1,
        shards := List.replicate shardCount.toNat { arenaCapacity := perShard.toNat }
      }

def shardIndex (router : RouterWords) (key : Bytes) : UInt64 :=
  (murmurHash3 key).toUInt64 &&& router.shardMask

/-- The shard of a key; an index outside the vector would be a read outside of it. -/
def shardForKey (router : RouterWords) (key : Bytes) : Option Shard :=
  router.shards[(router.shardIndex key).toNat]?

/-- The routing is well defined: the constructor comes to its end, the shards have no more memory
than there is, and every key has its shard, which is the remainder of its hash.
-/
def WellDefined (totalMemory shardCount : UInt64) : Prop :=
  ∃ router,
    construct totalMemory shardCount = .ok router
    ∧ (router.shards.map Shard.arenaCapacity).sum ≤ totalMemory.toNat
    ∧ ∀ key,
        router.shardIndex key = (murmurHash3 key).toUInt64 % shardCount
        ∧ (router.shardIndex key).toNat < router.shards.length
        ∧ (router.shardForKey key).isSome = true

-----------------------------------------------------------------------------------------
-- What the bit test admits
-----------------------------------------------------------------------------------------

theorem toNat_sub_one {count : UInt64} (positive : count ≠ 0)
    : (count - 1).toNat = count.toNat - 1 := by
  have least : 1 ≤ count := by
    rw [UInt64.le_iff_toNat_le, UInt64.toNat_one]
    exact Nat.pos_of_ne_zero fun zero => positive (UInt64.toNat_inj.mp zero)
  exact UInt64.toNat_sub_of_le _ _ least

/-- The bit test admits the powers of two, and zero. -/
theorem passesCheck_iff {shardCount : UInt64}
    : PassesCheck shardCount
      ↔ shardCount = 0 ∨ ∃ exponent, shardCount.toNat = 2 ^ exponent := by
  by_cases zero : shardCount = 0
  · subst zero
    simp [PassesCheck]
  · have positive : shardCount.toNat ≠ 0 := fun none => zero (UInt64.toNat_inj.mp none)
    have bits := Nat.and_sub_one_eq_zero_iff_isPowerOfTwo positive
    rw [PassesCheck, ← UInt64.toNat_inj, UInt64.toNat_and, toNat_sub_one zero, UInt64.toNat_zero,
      bits]
    simp [zero, Nat.isPowerOfTwo]

/-- Below a power of two the mask is the remainder. -/
theorem and_sub_one_eq_mod {count : UInt64} {exponent : ℕ} (power : count.toNat = 2 ^ exponent)
    (word : UInt64)
    : word &&& (count - 1) = word % count := by
  have positive : count ≠ 0 := by
    rintro rfl
    exact absurd power.symm (Nat.two_pow_pos exponent).ne'
  apply UInt64.toNat_inj.mp
  rw [UInt64.toNat_and, toNat_sub_one positive, UInt64.toNat_mod, power,
    Nat.and_two_pow_sub_one_eq_mod]

-----------------------------------------------------------------------------------------
-- What is constructed
-----------------------------------------------------------------------------------------

/-- An admitted count other than zero makes the router of the model with invariants, and both
route alike.
-/
theorem construct_eq {totalMemory shardCount : UInt64} {exponent : ℕ}
    (power : shardCount.toNat = 2 ^ exponent)
    : ∃ router,
        construct totalMemory shardCount = .ok router
        ∧ router.shardMask = shardCount - 1
        ∧ router.shards = (ShardRouter.construct totalMemory.toNat exponent).shards
        ∧ ∀ key,
            (router.shardIndex key).toNat
              = (ShardRouter.construct totalMemory.toNat exponent).shardIndex key := by
  have admitted : PassesCheck shardCount := passesCheck_iff.mpr (.inr ⟨exponent, power⟩)
  have positive : shardCount ≠ 0 := by
    rintro rfl
    exact absurd power.symm (Nat.two_pow_pos exponent).ne'
  refine ⟨_, by rw [construct, if_neg (not_not.mpr admitted), if_neg positive], rfl, ?_, ?_⟩
  · simp only [ShardRouter.construct, UInt64.toNat_div, power]
  · intro key
    simp only [shardIndex, ShardRouter.shardIndex, ShardRouter.shardMask, ShardRouter.shardCount,
      ShardRouter.construct, List.length_replicate, UInt64.toNat_and, toNat_sub_one positive,
      UInt32.toNat_toUInt64, power]

/-- The shares of the memory are no more than the whole. -/
theorem sum_capacities_le (totalMemory exponent : ℕ)
    : ((ShardRouter.construct totalMemory exponent).shards.map Shard.arenaCapacity).sum
      ≤ totalMemory := by
  rw [ShardRouter.construct, List.map_replicate, List.sum_replicate_nat]
  exact Nat.mul_div_le totalMemory (2 ^ exponent)

/-- A count that passes the assertion gives a well-defined routing exactly if it is not zero. -/
theorem wellDefined_iff {totalMemory shardCount : UInt64} (admitted : PassesCheck shardCount)
    : WellDefined totalMemory shardCount ↔ shardCount ≠ 0 := by
  constructor
  · rintro ⟨router, constructed, -⟩ rfl
    rw [construct, if_neg (not_not.mpr admitted), if_pos rfl] at constructed
    cases constructed
  · intro positive
    obtain ⟨exponent, power⟩ := (passesCheck_iff.mp admitted).resolve_left positive
    obtain ⟨router, constructed, mask, shards, index⟩ := @construct_eq totalMemory _ _ power
    refine ⟨router, constructed, ?_, ?_⟩
    · rw [shards]
      exact sum_capacities_le totalMemory.toNat exponent
    · intro key
      have inside : (router.shardIndex key).toNat < router.shards.length := by
        rw [index, shards]
        exact ShardRouter.shardIndex_lt _ key
      refine ⟨?_, inside, ?_⟩
      · rw [shardIndex, mask, and_sub_one_eq_mod power]
      · rw [shardForKey, List.getElem?_eq_getElem inside]
        rfl

/-- The count that the server is started with. -/
theorem wellDefined_iff_default : WellDefined 1073741824 64 :=
  (wellDefined_iff (by decide)).mpr (by decide)

/-- Zero shards pass the assertion, too. -/
theorem wellDefined_fails
    : ¬ ∀ totalMemory shardCount, PassesCheck shardCount → WellDefined totalMemory shardCount := by
  intro claimed
  obtain ⟨router, constructed, -⟩ := claimed 1073741824 0 (by decide)
  cases constructed

end RouterWords

end InMemoryDB
