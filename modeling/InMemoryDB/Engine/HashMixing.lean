import InMemoryDB.Engine.Hasher
import InMemoryDB.Library.WordMixing
import Mathlib.Data.Finite.Defs
import Mathlib.Data.Fintype.EquivFin

/-! What the hash tells apart: every mixing step is injective, so a change in one place of a key
or of the seed is carried to the end.
-/

namespace InMemoryDB

namespace Murmur

-----------------------------------------------------------------------------------------
-- The steps on one word
-----------------------------------------------------------------------------------------

/-- The constants of the source are odd, so each has an inverse. -/
theorem mul_injective {factor inverse : UInt32} (unit : factor * inverse = 1)
    : Function.Injective fun word : UInt32 => word * factor := by
  intro word word' same
  apply UInt32.toBitVec_inj.mp
  apply WordMixing.mul_injective (congrArg UInt32.toBitVec unit)
  exact congrArg UInt32.toBitVec same

theorem rotateLeft_injective {left right : UInt32}
    (whole : left.toNat % 32 + right.toNat % 32 = 32)
    : Function.Injective fun word => rotateLeft word left right := by
  intro word word' same
  apply UInt32.toBitVec_inj.mp
  apply WordMixing.rotate_injective whole
  simpa [rotateLeft] using congrArg UInt32.toBitVec same

theorem xorShift_injective (shift : UInt32) (positive : 0 < shift.toNat % 32)
    : Function.Injective fun word : UInt32 => word ^^^ word >>> shift := by
  intro word word' same
  apply UInt32.toBitVec_inj.mp
  apply WordMixing.xorShift_injective positive
  simpa using congrArg UInt32.toBitVec same

theorem scramble_injective : Function.Injective scramble := by
  have first : c1 * 0xdee13bb1 = 1 := by decide
  have second : c2 * 0x56ed309b = 1 := by decide
  exact (mul_injective second).comp
    ((rotateLeft_injective (by decide)).comp (mul_injective first))

/-- What a block does to the hash once its word has been added. -/
theorem stir_injective
    : Function.Injective fun word : UInt32 => rotateLeft word 13 19 * 5 + 0xe6546b64 := by
  have unit : (5 : UInt32) * 0xcccccccd = 1 := by decide
  intro word word' same
  have turned := mul_injective unit ((UInt32.add_left_inj _).mp same)
  exact rotateLeft_injective (by decide) turned

theorem mixBlock_injective_hash (k1 : UInt32) : Function.Injective fun h1 => mixBlock h1 k1 := by
  intro h1 h1' same
  exact (UInt32.xor_left_inj _).mp (stir_injective same)

theorem mixBlock_injective_word (h1 : UInt32) : Function.Injective (mixBlock h1) := by
  intro k1 k1' same
  exact scramble_injective ((UInt32.xor_right_inj _).mp (stir_injective same))

theorem finalize_injective : Function.Injective finalize := by
  have first : (0x85ebca6b : UInt32) * 0xa5cb9243 = 1 := by decide
  have second : (0xc2b2ae35 : UInt32) * 0x7ed1b41d = 1 := by decide
  intro word word' same
  apply xorShift_injective 16 (by decide)
  apply mul_injective first
  apply xorShift_injective 13 (by decide)
  apply mul_injective second
  exact xorShift_injective 16 (by decide) same

-----------------------------------------------------------------------------------------
-- The bytes of a word
-----------------------------------------------------------------------------------------

/-- The bytes stand in the word one after the other, the first one lowest. -/
def Spells (word : UInt32) (bytes : Bytes) : Prop :=
  ∀ place byte,
    bytes[place]? = some byte
    → ∀ index < 8, word.toBitVec.getLsbD (8 * place + index) = byte.toBitVec.getLsbD index

/-- A word spells one text of a length at most. -/
theorem Spells.unique {word : UInt32} {bytes bytes' : Bytes} (spells : Spells word bytes)
    (spells' : Spells word bytes') (length : bytes.length = bytes'.length)
    : bytes = bytes' := by
  apply List.ext_getElem length
  intro place inside inside'
  apply UInt8.toBitVec_inj.mp
  apply BitVec.eq_of_getLsbD_eq
  intro index small
  have bit := spells place _ (List.getElem?_eq_getElem inside) index small
  have bit' := spells' place _ (List.getElem?_eq_getElem inside') index small
  exact bit.symm.trans bit'

/-- A byte that a shift has put in its place has no bits in the other places. -/
theorem getLsbD_shifted (byte : UInt8) (shift : UInt32) {own place index : ℕ}
    (put : shift.toNat = 8 * own) (fits : own < 4) (inside : place < 4) (small : index < 8)
    : (byte.toUInt32 <<< shift).toBitVec.getLsbD (8 * place + index)
      = (decide (place = own) && byte.toBitVec.getLsbD index) := by
  have moved : (shift.toBitVec % 32).toNat = 8 * own := by
    rw [BitVec.toNat_umod, UInt32.toNat_toBitVec, put]
    exact Nat.mod_eq_of_lt (show 8 * own < 32 by omega)
  rw [UInt32.toBitVec_shiftLeft, BitVec.shiftLeft_eq', moved, UInt8.toBitVec_toUInt32,
    BitVec.getLsbD_shiftLeft, BitVec.getLsbD_setWidth]
  rcases lt_trichotomy place own with lower | rfl | higher
  · have before : 8 * place + index < 8 * own := by omega
    simp [before, lower.ne]
  · have bound : 8 * place + index < 32 ∧ index < 32 := by omega
    simp [bound]
  · have beyond : 8 ≤ 8 * place + index - 8 * own := by omega
    simp [BitVec.getLsbD_of_ge _ _ beyond, higher.ne']

theorem getLsbD_unshifted (byte : UInt8) {place index : ℕ} (inside : place < 4)
    (small : index < 8)
    : byte.toUInt32.toBitVec.getLsbD (8 * place + index)
      = (decide (place = 0) && byte.toBitVec.getLsbD index) := by
  have shifted := @getLsbD_shifted byte 0 0 place index rfl (by omega) inside small
  simpa using shifted

theorem spells_readWord (b0 b1 b2 b3 : UInt8)
    : Spells (readWord b0 b1 b2 b3) [b0, b1, b2, b3] := by
  intro place byte found index small
  have inside : place < 4 := (List.getElem?_eq_some_iff.mp found).1
  simp only [readWord, UInt32.toBitVec_or, BitVec.getLsbD_or, getLsbD_unshifted b0 inside small,
    @getLsbD_shifted b1 8 1 _ _ rfl (by omega) inside small,
    @getLsbD_shifted b2 16 2 _ _ rfl (by omega) inside small,
    @getLsbD_shifted b3 24 3 _ _ rfl (by omega) inside small]
  match place, found with
  | 0, found | 1, found | 2, found | 3, found =>
      obtain rfl := Option.some.inj found
      simp

/-- The tail is read from its last byte down, which makes no difference. -/
theorem spells_tailWord {tail : Bytes} (short : tail.length < 4) : Spells (tailWord tail) tail := by
  intro place byte found index small
  have inside : place < 4 := (List.getElem?_eq_some_iff.mp found).1.trans short
  match tail with
  | [] => cases found
  | [b0] =>
      rw [tailWord, getLsbD_unshifted b0 inside small]
      match place, found with
      | 0, found =>
          obtain rfl := Option.some.inj found
          simp
  | [b0, b1] =>
      rw [tailWord, UInt32.toBitVec_xor, BitVec.getLsbD_xor, getLsbD_unshifted b0 inside small,
        @getLsbD_shifted b1 8 1 _ _ rfl (by omega) inside small]
      match place, found with
      | 0, found | 1, found =>
          obtain rfl := Option.some.inj found
          simp
  | [b0, b1, b2] =>
      simp only [tailWord, UInt32.toBitVec_xor, BitVec.getLsbD_xor,
        getLsbD_unshifted b0 inside small,
        @getLsbD_shifted b1 8 1 _ _ rfl (by omega) inside small,
        @getLsbD_shifted b2 16 2 _ _ rfl (by omega) inside small]
      match place, found with
      | 0, found | 1, found | 2, found =>
          obtain rfl := Option.some.inj found
          simp

-----------------------------------------------------------------------------------------
-- Whole keys
-----------------------------------------------------------------------------------------

/-- A key is a tail of three bytes at most, or four bytes in front of a key. -/
theorem groups_induction {motive : Bytes → Prop}
    (tail : ∀ tail : Bytes, tail.length < 4 → motive tail)
    (block
      : ∀ (b0 b1 b2 b3 : UInt8) (rest : Bytes),
          motive rest → motive (b0 :: b1 :: b2 :: b3 :: rest))
    : ∀ key, motive key
  | b0 :: b1 :: b2 :: b3 :: rest => block b0 b1 b2 b3 rest (groups_induction tail block rest)
  | [] => tail [] (by decide)
  | [b0] => tail [b0] (by simp)
  | [b0, b1] => tail [b0, b1] (by simp)
  | [b0, b1, b2] => tail [b0, b1, b2] (by simp)

theorem mixBytes_block (h1 : UInt32) (b0 b1 b2 b3 : UInt8) (rest : Bytes)
    : mixBytes h1 (b0 :: b1 :: b2 :: b3 :: rest)
      = mixBytes (mixBlock h1 (readWord b0 b1 b2 b3)) rest := by
  rw [mixBytes.eq_def]

theorem mixBytes_tail (h1 : UInt32) {tail : Bytes} (filled : tail ≠ []) (short : tail.length < 4)
    : mixBytes h1 tail = h1 ^^^ scramble (tailWord tail) := by
  match tail with
  | [_] | [_, _] | [_, _, _] => rfl

/-- Different hashes stay different whatever bytes follow, by induction on these. -/
theorem mixBytes_injective (key : Bytes) : Function.Injective fun h1 => mixBytes h1 key := by
  induction key using groups_induction with
  | tail tail short =>
      intro h1 h1' same
      by_cases empty : tail = []
      · subst tail
        exact same
      · dsimp only at same
        rw [mixBytes_tail h1 empty short, mixBytes_tail h1' empty short] at same
        exact (UInt32.xor_left_inj _).mp same
  | block b0 b1 b2 b3 rest ih =>
      intro h1 h1' same
      dsimp only at same
      rw [mixBytes_block, mixBytes_block] at same
      exact mixBlock_injective_hash _ (ih same)

/-- Two keys of one length that are different, but not outside one group of four bytes: an
aligned block, or the one to three bytes behind the last block.
-/
structure DifferWithin (group : ℕ) (key key' : Bytes) : Prop where
  length : key.length = key'.length
  elsewhere : ∀ place, place / 4 ≠ group → key[place]? = key'[place]?
  different : key ≠ key'

/-- Behind the group in which they differ the keys are the same. -/
theorem DifferWithin.rest {b0 b1 b2 b3 c0 c1 c2 c3 : UInt8} {key key' : Bytes}
    (differ : DifferWithin 0 (b0 :: b1 :: b2 :: b3 :: key) (c0 :: c1 :: c2 :: c3 :: key'))
    : key = key' := by
  apply List.ext_getElem?
  intro place
  exact differ.elsewhere (place + 4) (by omega)

/-- In front of it they are the same, too. -/
theorem DifferWithin.block {group : ℕ} {b0 b1 b2 b3 c0 c1 c2 c3 : UInt8} {key key' : Bytes}
    (differ
      : DifferWithin (group + 1) (b0 :: b1 :: b2 :: b3 :: key) (c0 :: c1 :: c2 :: c3 :: key'))
    : [b0, b1, b2, b3] = [c0, c1, c2, c3] ∧ DifferWithin group key key' := by
  have same0 := Option.some.inj (differ.elsewhere 0 (by omega))
  have same1 := Option.some.inj (differ.elsewhere 1 (by omega))
  have same2 := Option.some.inj (differ.elsewhere 2 (by omega))
  have same3 := Option.some.inj (differ.elsewhere 3 (by omega))
  obtain ⟨rfl, rfl, rfl, rfl⟩ : b0 = c0 ∧ b1 = c1 ∧ b2 = c2 ∧ b3 = c3 :=
    ⟨same0, same1, same2, same3⟩
  refine ⟨rfl, ?_, ?_, ?_⟩
  · simpa using differ.length
  · intro place outside
    exact differ.elsewhere (place + 4) (by omega)
  · rintro rfl
    exact differ.different rfl

/-- The group in which two keys differ makes different hashes of one hash, and what follows it
keeps them apart; by induction on the key.
-/
theorem mixBytes_ne {group : ℕ} {key key' : Bytes} (differ : DifferWithin group key key')
    (h1 : UInt32)
    : mixBytes h1 key ≠ mixBytes h1 key' := by
  induction key using groups_induction generalizing group key' h1 with
  | tail tail short =>
      have short' : key'.length < 4 := differ.length ▸ short
      have filled : tail ≠ [] := by
        rintro rfl
        exact differ.different (List.length_eq_zero_iff.mp differ.length.symm).symm
      have filled' : key' ≠ [] := by
        rintro rfl
        exact filled (List.length_eq_zero_iff.mp differ.length)
      rw [mixBytes_tail h1 filled short, mixBytes_tail h1 filled' short']
      intro same
      have word := scramble_injective ((UInt32.xor_right_inj _).mp same)
      have spells := spells_tailWord short
      rw [word] at spells
      exact differ.different (spells.unique (spells_tailWord short') differ.length)
  | block b0 b1 b2 b3 rest ih =>
      match key', differ with
      | c0 :: c1 :: c2 :: c3 :: rest', differ =>
          rw [mixBytes_block, mixBytes_block]
          cases group with
          | zero =>
              obtain rfl := differ.rest
              intro same
              have word := mixBlock_injective_word h1 (mixBytes_injective rest same)
              have spells := spells_readWord b0 b1 b2 b3
              rw [word] at spells
              have bytes := spells.unique (spells_readWord c0 c1 c2 c3) rfl
              exact differ.different (congrArg (· ++ rest) bytes)
          | succ group =>
              obtain ⟨block, later⟩ := differ.block
              obtain ⟨rfl, rfl, rfl, rfl, -⟩ := by simpa using block
              exact ih later _
      | [], differ | [_], differ | [_, _], differ | [_, _, _], differ =>
          have length := differ.length
          simp at length

end Murmur

instance finiteWords : Finite UInt32 :=
  Finite.of_injective UInt32.toFin fun _ _ => UInt32.toFin_inj.mp

theorem murmurHash3_eq_iff {key key' : Bytes} {seed seed' : UInt32}
    : murmurHash3 key seed = murmurHash3 key' seed'
      ↔ Murmur.mixBytes seed key ^^^ UInt32.ofNat key.length
        = Murmur.mixBytes seed' key' ^^^ UInt32.ofNat key'.length := by
  rw [murmurHash3, murmurHash3, Murmur.finalize_injective.eq_iff]

/-- A change inside one group of a key always changes the hash, under every seed; and every hash
of a key is that of exactly one seed. The length of the keys does not matter here.
-/
theorem murmurHash3_keeps_differences
    : (∀ seed group key key',
        Murmur.DifferWithin group key key' → murmurHash3 key seed ≠ murmurHash3 key' seed)
      ∧ ∀ key, Function.Bijective fun seed => murmurHash3 key seed := by
  constructor
  · intro seed group key key' differ same
    rw [murmurHash3_eq_iff, differ.length, UInt32.xor_left_inj] at same
    exact Murmur.mixBytes_ne differ seed same
  · intro key
    apply Finite.injective_iff_bijective.mp
    intro seed seed' same
    dsimp only at same
    rw [murmurHash3_eq_iff, UInt32.xor_left_inj] at same
    exact Murmur.mixBytes_injective key same

/-- Two keys that differ in the one byte behind their block. -/
theorem murmurHash3_keeps_differences_tail
    : murmurHash3 (ascii "key_a") ≠ murmurHash3 (ascii "key_b") := by
  have differ : Murmur.DifferWithin 1 (ascii "key_a") (ascii "key_b") := by
    refine ⟨by decide, ?_, by decide⟩
    have block : ∀ place < 4, (ascii "key_a")[place]? = (ascii "key_b")[place]? := by decide
    have length : (ascii "key_a").length = 5 ∧ (ascii "key_b").length = 5 := by decide
    intro place outside
    by_cases inside : place < 4
    · exact block place inside
    · rw [List.getElem?_eq_none (by omega), List.getElem?_eq_none (by omega)]
  exact murmurHash3_keeps_differences.1 0 1 _ _ differ

end InMemoryDB
