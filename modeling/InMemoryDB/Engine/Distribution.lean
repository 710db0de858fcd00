import InMemoryDB.Engine.HashMixing
import InMemoryDB.Engine.ShardRouter
import Mathlib.Data.Fintype.BigOperators
import Mathlib.SetTheory.Cardinal.Finite

/-! How evenly the hash spreads keys over the shards: as evenly as can be, whatever surrounds the
four bytes that vary.
-/

namespace InMemoryDB

-----------------------------------------------------------------------------------------
-- Counting words
-----------------------------------------------------------------------------------------

namespace Murmur

theorem card_byte : Nat.card UInt8 = 256 :=
  Nat.card_eq_of_equiv_fin ⟨UInt8.toFin, UInt8.ofFin, fun _ => rfl, fun _ => rfl⟩

theorem card_word : Nat.card UInt32 = 2 ^ 32 :=
  Nat.card_eq_of_equiv_fin ⟨UInt32.toFin, UInt32.ofFin, fun _ => rfl, fun _ => rfl⟩

instance finiteBytes : Finite UInt8 :=
  Finite.of_injective UInt8.toFin fun _ _ => UInt8.toFin_inj.mp

theorem card_texts (length : ℕ) : Nat.card (List.Vector UInt8 length) = 256 ^ length := by
  have := Fintype.ofFinite UInt8
  rw [Nat.card_eq_fintype_card, card_vector, ← Nat.card_eq_fintype_card, card_byte]

/-- The words with given low bits are as many as there are high bits. -/
theorem card_low_bits {exponent residue : ℕ} (small : exponent ≤ 32)
    (inside : residue < 2 ^ exponent)
    : Nat.card {word : UInt32 // word.toNat % 2 ^ exponent = residue} = 2 ^ (32 - exponent) := by
  have whole : 2 ^ (32 - exponent) * 2 ^ exponent = 2 ^ 32 := by
    rw [← pow_add, Nat.sub_add_cancel small]
  have positive := Nat.two_pow_pos exponent
  have fits (high : Fin (2 ^ (32 - exponent))) : high * 2 ^ exponent + residue < 2 ^ 32 := by
    have below := Nat.mul_le_mul_right (2 ^ exponent) (Nat.succ_le_of_lt high.isLt)
    rw [Nat.succ_mul, whole] at below
    omega
  apply Nat.card_eq_of_equiv_fin
  refine ⟨fun word => ⟨word.1.toNat / 2 ^ exponent, ?_⟩,
    fun high => ⟨UInt32.ofNat (high * 2 ^ exponent + residue), ?_⟩, ?_, ?_⟩
  · rw [Nat.div_lt_iff_lt_mul positive, whole]
    exact word.1.toNat_lt
  · rw [UInt32.toNat_ofNat_of_lt' (fits high), Nat.mul_add_mod_self_right,
      Nat.mod_eq_of_lt inside]
  · rintro ⟨word, rfl⟩
    apply Subtype.ext
    apply UInt32.toNat_inj.mp
    rw [UInt32.toNat_ofNat_of_lt' (fits _)]
    exact Nat.div_add_mod' _ _
  · intro high
    apply Fin.ext
    simp only [UInt32.toNat_ofNat_of_lt' (fits high)]
    rw [Nat.mul_comm, Nat.mul_add_div positive, Nat.div_eq_of_lt inside, Nat.add_zero]

-----------------------------------------------------------------------------------------
-- Keys with one block that varies
-----------------------------------------------------------------------------------------

/-- Two keys that are alike in front of an aligned block and behind it. -/
theorem differWithin_block {front : Bytes} (aligned : 4 ∣ front.length)
    {block block' : List.Vector UInt8 4} (different : block ≠ block') (back : Bytes)
    : DifferWithin (front.length / 4) (front ++ block.toList ++ back)
        (front ++ block'.toList ++ back) := by
  obtain ⟨group, length⟩ := aligned
  have size := block.toList_length
  have size' := block'.toList_length
  refine ⟨by simp, ?_, ?_⟩
  · intro place outside
    rw [length, Nat.mul_div_cancel_left _ (by decide)] at outside
    rcases Nat.lt_or_ge place front.length with before | behind
    · rw [List.append_assoc, List.append_assoc, List.getElem?_append_left before,
        List.getElem?_append_left before]
    · have beyond : front.length + 4 ≤ place := by omega
      rw [List.getElem?_append_right (by simpa using beyond),
        List.getElem?_append_right (by simpa using beyond)]
      simp
  · intro same
    rw [List.append_assoc, List.append_assoc, List.append_cancel_left_eq,
      List.append_cancel_right_eq] at same
    exact different (List.Vector.toList_injective same)

/-- Every word is the hash of exactly one block, whatever stands around it. -/
theorem block_bijective {front : Bytes} (aligned : 4 ∣ front.length) (seed : UInt32)
    (back : Bytes)
    : Function.Bijective fun block : List.Vector UInt8 4 =>
        murmurHash3 (front ++ block.toList ++ back) seed := by
  apply Function.Injective.bijective_of_nat_card_le
  · intro block block' same
    by_contra different
    have differ := differWithin_block aligned different back
    dsimp only at same
    rw [murmurHash3_eq_iff, differ.length, UInt32.xor_left_inj] at same
    exact mixBytes_ne differ seed same
  · rw [card_word, card_texts]
    decide

end Murmur

-----------------------------------------------------------------------------------------
-- The shards
-----------------------------------------------------------------------------------------

namespace ShardRouter

variable {router : ShardRouter} {exponent index : ℕ}

/-- The blocks that send a key to a shard, whatever stands around the block. -/
theorem card_blocks (count : router.shardCount = 2 ^ exponent) (small : exponent ≤ 32)
    (inside : index < router.shardCount) {front : Bytes} (aligned : 4 ∣ front.length)
    (back : Bytes)
    : Nat.card
        {block : List.Vector UInt8 4 // router.shardIndex (front ++ block.toList ++ back) = index}
      = 2 ^ (32 - exponent) := by
  rw [count] at inside
  rw [← Murmur.card_low_bits small inside]
  have spread := Murmur.block_bijective aligned 0 back
  refine Nat.card_congr ((Equiv.ofBijective _ spread).subtypeEquiv ?_)
  intro block
  rw [shardIndex, shardMask, count, Nat.and_two_pow_sub_one_eq_mod]
  rfl

/-- A key of at least four bytes that goes to a shard, cut behind its first block. -/
def cutBlock (router : ShardRouter) (index length : ℕ)
    : {key : Bytes // key.length = 4 + length ∧ router.shardIndex key = index}
      ≃ {parts : List.Vector UInt8 length × List.Vector UInt8 4
          // router.shardIndex ([] ++ parts.2.toList ++ parts.1.toList) = index} where
  toFun key :=
    ⟨⟨⟨key.1.drop 4, by rw [List.length_drop, key.2.1, Nat.add_sub_cancel_left]⟩,
        ⟨key.1.take 4, by
          rw [List.length_take, key.2.1, Nat.min_eq_left (Nat.le_add_right _ _)]⟩⟩,
      (congrArg router.shardIndex (List.take_append_drop 4 key.1)).trans key.2.2⟩
  invFun parts :=
    ⟨parts.1.2.toList ++ parts.1.1.toList,
      by rw [List.length_append, List.Vector.toList_length, List.Vector.toList_length],
      parts.2⟩
  left_inv key := Subtype.ext (List.take_append_drop 4 key.1)
  right_inv parts := by
    have size := parts.1.2.toList_length
    exact Subtype.ext (Prod.ext (Subtype.ext (List.drop_left' size))
      (Subtype.ext (List.take_left' size)))

/-- No shard is preferred: with at most `2 ^ 32` shards, each serves exactly its share of the keys
that differ in one aligned block, whatever the rest of the key is, and exactly its share of all keys
of every length from four bytes on.
-/
theorem shards_evenly_used (count : router.shardCount = 2 ^ exponent) (small : exponent ≤ 32)
    (inside : index < router.shardCount)
    : (∀ front back : Bytes,
          4 ∣ front.length
          → Nat.card
                {block : List.Vector UInt8 4
                  // router.shardIndex (front ++ block.toList ++ back) = index}
              = 2 ^ (32 - exponent))
      ∧ ∀ length,
          4 ≤ length
          → Nat.card {key : Bytes // key.length = length ∧ router.shardIndex key = index}
                * router.shardCount
              = 256 ^ length := by
  refine ⟨fun front back aligned => card_blocks count small inside aligned back, ?_⟩
  intro length long
  obtain ⟨more, rfl⟩ := Nat.exists_eq_add_of_le long
  have := Fintype.ofFinite (List.Vector UInt8 more)
  have first : 4 ∣ ([] : Bytes).length := dvd_zero 4
  have keys
      : Nat.card {key : Bytes // key.length = 4 + more ∧ router.shardIndex key = index}
        = 256 ^ more * 2 ^ (32 - exponent) := by
    rw [Nat.card_congr (cutBlock router index more),
      Nat.card_congr (Equiv.subtypeProdEquivSigmaSubtype fun back block =>
        router.shardIndex ([] ++ List.Vector.toList block ++ List.Vector.toList back) = index),
      Nat.card_sigma,
      Finset.sum_const_nat fun back _ => card_blocks count small inside first back.toList,
      Finset.card_univ, ← Nat.card_eq_fintype_card, Murmur.card_texts]
  have words : 2 ^ (32 - exponent) * 2 ^ exponent = 256 ^ 4 := by
    rw [← pow_add, Nat.sub_add_cancel small]
    rfl
  rw [keys, count, mul_assoc, words, ← pow_add, Nat.add_comm]

/-- Each of the 64 shards of the server has a 64th of the keys of eight bytes. -/
theorem shards_evenly_used_64
    : Nat.card
          {key : Bytes
            // key.length = 8 ∧ (ShardRouter.construct 1073741824 6).shardIndex key = 63}
        * 64
      = 256 ^ 8 := by
  have count : (ShardRouter.construct 1073741824 6).shardCount = 2 ^ 6 := List.length_replicate
  have inside : 63 < (ShardRouter.construct 1073741824 6).shardCount := by
    rw [count]
    decide
  have keys := (shards_evenly_used count (by decide) inside).2 8 (by decide)
  rwa [count] at keys

end ShardRouter

end InMemoryDB
