import Mathlib.Data.Finmap

/-! Stored values with their time to live, and the arena that may refuse memory for them. -/

namespace InMemoryDB

/-- A `std::string`, which holds bytes of any kind. -/
abbrev Bytes := List UInt8

/-- The bytes of an ASCII literal of the source. -/
def ascii (text : String) : Bytes := text.toList.map fun letter => letter.toNat.toUInt8

/-- Points of the steady clock are counts of nanoseconds. -/
def nanosecondsPerSecond : Int := 1000000000

/-- The four alternatives a stored value can hold. -/
inductive ValueVariant where
  | string (text : Bytes)
  | integer (number : Int)
  | list (items : List Bytes)
  | hash (fields : Finmap fun _ : Bytes => Bytes)
  deriving DecidableEq

inductive ValueType where
  | string
  | integer
  | list
  | hash
  deriving DecidableEq

def ValueVariant.type : ValueVariant → ValueType
  | .string _ => .string
  | .integer _ => .integer
  | .list _ => .list
  | .hash _ => .hash

/-- The time to live of a write that names none: 24 hours. -/
def defaultTtl : Int := 86400

/-- A stored entry. A negative `ttlSeconds` means that it never expires. -/
structure CacheAlignedValue where
  data : ValueVariant
  createdAt : Int
  ttlSeconds : Int
  tombstoned : Bool := false
  deriving DecidableEq

namespace CacheAlignedValue

/-- The constructor, which reads the clock for the time of creation. -/
def new (value : ValueVariant) (ttl : Int) (now : Int) : CacheAlignedValue where
  data := value
  createdAt := now
  ttlSeconds := ttl

def type (value : CacheAlignedValue) : ValueType := value.data.type

/-- Elapsed time is cut to whole seconds before it is compared with the time to live. -/
def isExpired (value : CacheAlignedValue) (now : Int) : Bool :=
  if value.ttlSeconds < 0 then false
  else value.ttlSeconds ≤ (now - value.createdAt).tdiv nanosecondsPerSecond

/-- The test that the commands repeat before they use an entry they have found. -/
def isLive (value : CacheAlignedValue) (now : Int) : Bool :=
  !value.tombstoned && !value.isExpired now

/-- The same test the other way round, as the readers and the sweeper write it. -/
theorem not_isLive (value : CacheAlignedValue) (now : Int)
    : (value.tombstoned || value.isExpired now) = !value.isLive now := by
  simp only [isLive, Bool.not_and, Bool.not_not]

-----------------------------------------------------------------------------------------
-- Expiry against a deadline
-----------------------------------------------------------------------------------------

/-- From its creation on, a value is expired exactly once its whole time to live has
passed; the cut to seconds loses less than one second and the time to live has whole ones.
-/
theorem isExpired_iff {value : CacheAlignedValue} {now : Int}
    (created : value.createdAt ≤ now)
    : value.isExpired now = true
      ↔ 0 ≤ value.ttlSeconds
        ∧ value.createdAt + value.ttlSeconds * nanosecondsPerSecond ≤ now := by
  have elapsed : (now - value.createdAt).tdiv nanosecondsPerSecond
      = (now - value.createdAt) / nanosecondsPerSecond :=
    Int.tdiv_eq_ediv_of_nonneg (by omega)
  unfold isExpired
  split
  · rename_i never
    simp only [Bool.false_eq_true, false_iff]
    omega
  · rename_i mortal
    rw [decide_eq_true_eq, elapsed, Int.le_ediv_iff_mul_le (by decide)]
    omega

/-- A positive time to live runs out at its deadline, whatever the clock shows before. -/
theorem isExpired_iff_of_pos {value : CacheAlignedValue} (positive : 0 < value.ttlSeconds)
    (now : Int)
    : value.isExpired now = true
      ↔ value.createdAt + value.ttlSeconds * nanosecondsPerSecond ≤ now := by
  by_cases created : value.createdAt ≤ now
  · rw [isExpired_iff created]
    omega
  · have mirrored : 0 ≤ (-(now - value.createdAt)).tdiv nanosecondsPerSecond :=
      Int.tdiv_nonneg (by omega) (by decide)
    rw [Int.neg_tdiv] at mirrored
    have unexpired : value.isExpired now = false := by
      unfold isExpired
      split
      · rfl
      · exact decide_eq_false (by omega)
    simp only [unexpired, Bool.false_eq_true, nanosecondsPerSecond, false_iff]
    omega

/-- Once expired, a value stays expired. -/
theorem isExpired_mono {value : CacheAlignedValue} {now later : Int} (order : now ≤ later)
    (expired : value.isExpired now = true)
    : value.isExpired later = true := by
  unfold isExpired at expired ⊢
  split at expired
  · cases expired
  · rename_i mortal
    rw [if_neg mortal]
    rw [decide_eq_true_eq] at expired ⊢
    exact expired.trans (Int.tdiv_le_tdiv (by decide) (by omega))

/-- A time to live of zero has run out as soon as the value exists. -/
theorem isExpired_of_zero {value : CacheAlignedValue} {now : Int}
    (created : value.createdAt ≤ now) (zero : value.ttlSeconds = 0)
    : value.isExpired now = true :=
  (isExpired_iff created).mpr ⟨by omega, by simpa [zero] using created⟩

end CacheAlignedValue

-----------------------------------------------------------------------------------------
-- Memory that may be refused
-----------------------------------------------------------------------------------------

/-- The exception of an arena at its hard limit. -/
inductive OomException where
  | hardLimit
  deriving DecidableEq

/-- The places at which a write asks the arena of its shard for memory, the check of the
hard limit in front of it included.
-/
inductive AllocationPoint where
  | hardLimit
  | key
  | value
  | container
  | element
  | field
  | fieldNode
  | node
  deriving DecidableEq

/-- Which requests of a write the arena refuses. How much memory the containers of the
standard library ask for is theirs to choose, so any set of points can be refused.
-/
abbrev Refusals := AllocationPoint → Bool

/-- An arena with room for everything. -/
def Refusals.none : Refusals := fun _ => false

/-- Work on a state that an exception may cut short; what was done before stays done. -/
abbrev Guarded (σ : Type) := ExceptT OomException (StateM σ)

/-- Ask the arena for memory. -/
def allocate {σ : Type} (refusals : Refusals) (point : AllocationPoint) : Guarded σ Unit :=
  if refusals point then throw .hardLimit else pure ()

@[simp] theorem allocate_none {σ : Type} (point : AllocationPoint)
    : (allocate .none point : Guarded σ Unit) = pure () := rfl

/-- A request for memory passes, or throws. -/
theorem allocate_cases {σ : Type} (refusals : Refusals) (point : AllocationPoint)
    : (allocate refusals point : Guarded σ Unit) = pure ()
      ∨ (allocate refusals point : Guarded σ Unit) = throw .hardLimit := by
  unfold allocate
  split
  · exact .inr rfl
  · exact .inl rfl

namespace Guarded

variable {σ α β : Type}

/-- Work that does what it would with memory for everything, or is cut short before it has
changed its state.
-/
def AllOrNothing (work full : Guarded σ α) : Prop :=
  ∀ state,
    work.run.run state = full.run.run state ∨ work.run.run state = (.error .hardLimit, state)

namespace AllOrNothing

theorem refl (work : Guarded σ α) : work.AllOrNothing work := fun _ => .inl rfl

/-- Asking for memory in front keeps all or nothing. -/
theorem allocate {work full : Guarded σ α} (refusals : Refusals) (point : AllocationPoint)
    (later : work.AllOrNothing full)
    : AllOrNothing (InMemoryDB.allocate refusals point >>= fun _ => work) full := by
  intro state
  rcases (allocate_cases refusals point : _ = (pure () : Guarded σ Unit) ∨ _) with
    passed | refused
  · rw [passed]
    exact later state
  · rw [refused]
    exact .inr rfl

/-- Work behind a part that is all or nothing, and that asks for no memory, keeps it. -/
theorem bind {work full : Guarded σ α} (first : work.AllOrNothing full)
    (later : α → Guarded σ β)
    : AllOrNothing (work >>= later) (full >>= later) := by
  intro state
  have continued (work : Guarded σ α)
      : (work >>= later).run.run state
        = match work.run.run state with
          | (.ok result, state) => (later result).run.run state
          | (.error refusal, state) => (.error refusal, state) := by
    change (ExceptT.bindCont later (work.run.run state).1 : StateM σ _) (work.run.run state).2 = _
    rcases work.run.run state with ⟨_ | _, _⟩ <;> rfl
  rcases first state with same | refused
  · exact .inl (by rw [continued, same, ← continued])
  · exact .inr (by rw [continued, refused])

end AllOrNothing

end Guarded

end InMemoryDB
