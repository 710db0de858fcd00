import InMemoryDB.Library.Decimal
import InMemoryDB.Memory.VariantType

/-! One shard of the store: its data map and the operations under its lock. -/

namespace InMemoryDB

/-- `std::to_string` of a signed integer. -/
def toDecimal (number : Int) : Bytes :=
  if number < 0 then ascii "-" ++ Decimal.print number.natAbs else Decimal.print number.natAbs

/-- A shard's map, and how much memory its arena was given. -/
@[ext] structure Shard where
  arenaCapacity : ℕ
  data : Finmap fun _ : Bytes => CacheAlignedValue := ∅

namespace Shard

/-- `unordered_map::insert_or_assign`, which asks for a node first. -/
def insertOrAssign (refusals : Refusals) (key : Bytes) (entry : CacheAlignedValue)
    : Guarded Shard Unit := do
  allocate refusals .node
  modify fun shard => { shard with data := shard.data.insert key entry }

/-- The part of `set` inside its `try`. -/
def trySet (refusals : Refusals) (now : Int) (key value : Bytes) (ttl : Int)
    : Guarded Shard Unit := do
  allocate refusals .key
  allocate refusals .value
  insertOrAssign refusals key (.new (.string value) ttl now)

def set (refusals : Refusals) (now : Int) (key value : Bytes) (ttl : Int) (shard : Shard)
    : Bool × Shard :=
  if refusals .hardLimit then (false, shard)
  else
    match (trySet refusals now key value ttl).run.run shard with
    | (.ok _, shard) => (true, shard)
    | (.error _, shard) => (false, shard)

/-- The text `get` returns for a value; a list or a hash only shows that it is one. -/
def rendered : ValueVariant → Bytes
  | .string text => text
  | .integer number => toDecimal number
  | .list _ => ascii "(list)"
  | .hash _ => ascii "(hash)"

def get (now : Int) (key : Bytes) (shard : Shard) : Option Bytes :=
  match shard.data.lookup key with
  | none => none
  | some entry =>
      if entry.tombstoned || entry.isExpired now then none else some (rendered entry.data)

/-- Deletion marks the entry and leaves it to the sweeper. -/
def del (key : Bytes) (shard : Shard) : Bool × Shard :=
  match shard.data.lookup key with
  | none => (false, shard)
  | some entry =>
      if entry.tombstoned then (false, shard)
      else
        (true, { shard with data := shard.data.insert key { entry with tombstoned := true } })

def «exists» (now : Int) (key : Bytes) (shard : Shard) : Bool :=
  match shard.data.lookup key with
  | none => false
  | some entry => !entry.isExpired now && !entry.tombstoned

/-- The sweeper's removal, under the lock the sweeper holds. -/
def evictExpired (now : Int) (key : Bytes) (shard : Shard) : Bool × Shard :=
  match shard.data.lookup key with
  | none => (false, shard)
  | some entry =>
      if entry.tombstoned || entry.isExpired now then
        (true, { shard with data := shard.data.erase key })
      else (false, shard)

/-- Nothing is different but, at most, what a shard has under one key. -/
structure ChangedAt (key : Bytes) (before after : Shard) : Prop where
  capacity : after.arenaCapacity = before.arenaCapacity
  frame : ∀ other, other ≠ key → after.data.lookup other = before.data.lookup other

namespace ChangedAt

theorem refl (key : Bytes) (shard : Shard) : shard.ChangedAt key shard :=
  ⟨rfl, fun _ _ => rfl⟩

theorem insert (key : Bytes) (entry : CacheAlignedValue) (shard : Shard)
    : shard.ChangedAt key { shard with data := shard.data.insert key entry } :=
  ⟨rfl, fun _ different => Finmap.lookup_insert_of_ne _ different⟩

theorem erase (key : Bytes) (shard : Shard)
    : shard.ChangedAt key { shard with data := shard.data.erase key } :=
  ⟨rfl, fun _ different => Finmap.lookup_erase_ne different⟩

end ChangedAt

end Shard

end InMemoryDB
