import InMemoryDB.Memory.VariantType

/-! The hash that routes keys to shards. -/

namespace InMemoryDB

namespace Murmur

def c1 : UInt32 := 0xcc9e2d51

def c2 : UInt32 := 0x1b873593

/-- Rotation to the left, as the source spells it with two shifts. -/
def rotateLeft (word left right : UInt32) : UInt32 := (word <<< left) ||| (word >>> right)

/-- The mixing of one word, which the tail shares with the blocks. -/
def scramble (k1 : UInt32) : UInt32 := rotateLeft (k1 * c1) 15 17 * c2

def mixBlock (h1 k1 : UInt32) : UInt32 :=
  rotateLeft (h1 ^^^ scramble k1) 13 19 * 5 + 0xe6546b64

/-- Four bytes read as a word, the first one lowest. -/
def readWord (b0 b1 b2 b3 : UInt8) : UInt32 :=
  b0.toUInt32 ||| (b1.toUInt32 <<< 8) ||| (b2.toUInt32 <<< 16) ||| (b3.toUInt32 <<< 24)

/-- The one to three bytes after the last block. -/
def tailWord : Bytes → UInt32
  | [b0] => b0.toUInt32
  | [b0, b1] => (b1.toUInt32 <<< 8) ^^^ b0.toUInt32
  | [b0, b1, b2] => (b2.toUInt32 <<< 16) ^^^ (b1.toUInt32 <<< 8) ^^^ b0.toUInt32
  | _ => 0

/-- The loop over the aligned blocks, then the tail. -/
def mixBytes (h1 : UInt32) : Bytes → UInt32
  | b0 :: b1 :: b2 :: b3 :: rest => mixBytes (mixBlock h1 (readWord b0 b1 b2 b3)) rest
  | [] => h1
  | tail => h1 ^^^ scramble (tailWord tail)

/-- The finalization mix. -/
def finalize (h1 : UInt32) : UInt32 :=
  let h1 := h1 ^^^ (h1 >>> 16)
  let h1 := h1 * 0x85ebca6b
  let h1 := h1 ^^^ (h1 >>> 13)
  let h1 := h1 * 0xc2b2ae35
  h1 ^^^ (h1 >>> 16)

end Murmur

/-- MurmurHash3 (32 bit), for keys shorter than 2³¹ bytes, whose length fits an `int`. -/
def murmurHash3 (key : Bytes) (seed : UInt32 := 0) : UInt32 :=
  Murmur.finalize (Murmur.mixBytes seed key ^^^ UInt32.ofNat key.length)

end InMemoryDB
