import InMemoryDB.Core.ListRange

/-! The two computations of expiry, on the 64-bit numbers of the clock: one cuts the time passed
to seconds, the other turns the time to live into nanoseconds.
-/

namespace InMemoryDB

/-- `steady_clock::time_point::max()` -/
def timePointMax : Int := 2 ^ 63 - 1

namespace CacheAlignedValue

/-- The point of time at which a value expires, with no value if the seconds or their sum with
the time of creation do not fit into 64 bits.
-/
def expirationTime (value : CacheAlignedValue) : Option Int :=
  if value.ttlSeconds < 0 then some timePointMax
  else do
    let span ← int64 (value.ttlSeconds * nanosecondsPerSecond)
    int64 (value.createdAt + span)

/-- The same code as in `isExpired`, with no value if the time passed does not fit. -/
def checkedIsExpired (value : CacheAlignedValue) (now : Int) : Option Bool :=
  if value.ttlSeconds < 0 then some false
  else do
    let passed ← int64 (now - value.createdAt)
    return value.ttlSeconds ≤ passed.tdiv nanosecondsPerSecond

/-- Both computations have a value, and they say the same. -/
def ExpiryAgrees (value : CacheAlignedValue) (now : Int) : Prop :=
  ∃ deadline expired,
    value.expirationTime = some deadline
    ∧ value.checkedIsExpired now = some expired
    ∧ (expired = true ↔ 0 ≤ value.ttlSeconds ∧ deadline ≤ now)

theorem int64_eq_some {number result : Int}
    : int64 number = some result ↔ InInt64 number ∧ number = result := by
  rw [int64, Option.ite_none_right_eq_some, Option.some.injEq]

/-- Where the time passed fits, the checked code is the code. -/
theorem checkedIsExpired_eq_some {value : CacheAlignedValue} {now : Int} {expired : Bool}
    : value.checkedIsExpired now = some expired
      ↔ (value.ttlSeconds < 0 ∨ InInt64 (now - value.createdAt))
        ∧ value.isExpired now = expired := by
  by_cases never : value.ttlSeconds < 0
  · simp [checkedIsExpired, isExpired, never]
  · simp [checkedIsExpired, isExpired, never, Option.bind_eq_some_iff, int64_eq_some]

/-- A time to live has an end that can be told if it fits as nanoseconds and from its start. -/
theorem expirationTime_eq_some {value : CacheAlignedValue} {deadline : Int}
    (mortal : 0 ≤ value.ttlSeconds)
    : value.expirationTime = some deadline
      ↔ InInt64 (value.ttlSeconds * nanosecondsPerSecond)
        ∧ InInt64 (value.createdAt + value.ttlSeconds * nanosecondsPerSecond)
        ∧ value.createdAt + value.ttlSeconds * nanosecondsPerSecond = deadline := by
  rw [expirationTime, if_neg (by omega)]
  simp [Option.bind_eq_some_iff, int64_eq_some, and_assoc]

/-- A value that never expires has the last point of time for its end, and is not expired. -/
theorem expiryAgrees_of_negative {value : CacheAlignedValue} (never : value.ttlSeconds < 0)
    (now : Int)
    : value.ExpiryAgrees now := by
  refine ⟨timePointMax, false, if_pos never, if_pos never, ?_⟩
  simp only [Bool.false_eq_true, false_iff, not_and]
  omega

/-- With a time to live, they agree exactly if nothing overflows on the way: the seconds that the
cut takes away from the time passed are less than one.
-/
theorem expiryAgrees_iff_of_nonneg {value : CacheAlignedValue} {now : Int}
    (mortal : 0 ≤ value.ttlSeconds) (created : value.createdAt ≤ now)
    : value.ExpiryAgrees now
      ↔ InInt64 (value.ttlSeconds * nanosecondsPerSecond)
        ∧ InInt64 (value.createdAt + value.ttlSeconds * nanosecondsPerSecond)
        ∧ InInt64 (now - value.createdAt) := by
  constructor
  · rintro ⟨deadline, expired, ends, looked, -⟩
    obtain ⟨span, sum, -⟩ := (expirationTime_eq_some mortal).mp ends
    have passed := (checkedIsExpired_eq_some.mp looked).1
    exact ⟨span, sum, passed.resolve_left (by omega)⟩
  · rintro ⟨span, sum, passed⟩
    refine ⟨_, _, (expirationTime_eq_some mortal).mpr ⟨span, sum, rfl⟩,
      checkedIsExpired_eq_some.mpr ⟨.inr passed, rfl⟩, ?_⟩
    exact isExpired_iff created

end CacheAlignedValue

/-- For every time to live, those that a `SET` can ask for among them, every time of creation and
every time from then on: the two computations agree exactly if the value never expires, or the
time to live in nanoseconds, the end that it leads to and the time passed fit into 64 bits.
-/
theorem expiryAgrees_iff {text : Bytes} {ttl created now : Int}
    (times : InInt64 created ∧ InInt64 now) (later : created ≤ now)
    : (CacheAlignedValue.new (.string text) ttl created).ExpiryAgrees now
      ↔ ttl < 0
        ∨ ttl * nanosecondsPerSecond < 2 ^ 63
          ∧ created + ttl * nanosecondsPerSecond < 2 ^ 63
          ∧ now - created < 2 ^ 63 := by
  by_cases never : ttl < 0
  · have agrees := @CacheAlignedValue.expiryAgrees_of_negative
      (.new (.string text) ttl created) never now
    exact iff_of_true agrees (.inl never)
  · have mortal : 0 ≤ ttl := by omega
    have span : 0 ≤ ttl * nanosecondsPerSecond := Int.mul_nonneg mortal (by decide)
    rw [@CacheAlignedValue.expiryAgrees_iff_of_nonneg (.new (.string text) ttl created) now
      mortal later]
    obtain ⟨⟨least, -⟩, -⟩ := times
    simp only [InInt64, CacheAlignedValue.new, never, false_or]
    omega

/-- Ten seconds that began half a second after the clock, one nanosecond before their end. -/
theorem expiryAgrees_iff_ten
    : (CacheAlignedValue.new (.string (ascii "v")) 10 500000000).ExpiryAgrees 10499999999 :=
  (expiryAgrees_iff (by decide) (by decide)).mpr (by decide)

/-- The first number of seconds that is too large as nanoseconds. -/
theorem expiryAgrees_fails
    : ¬ ∀ tokens key text ttl created now,
        CommandFactory.parse tokens = some (.set key text ttl)
        → InInt64 created ∧ InInt64 now
        → created ≤ now
        → (CacheAlignedValue.new (.string text) ttl created).ExpiryAgrees now := by
  intro claimed
  have parsed
      : CommandFactory.parse [ascii "SET", ascii "k", ascii "v", ascii "9223372037"]
        = some (.set (ascii "k") (ascii "v") 9223372037) := by decide +kernel
  obtain ⟨deadline, -, ends, -⟩ := claimed _ _ _ _ 0 0 parsed (by decide) le_rfl
  have overflows
      : (CacheAlignedValue.new (.string (ascii "v")) 9223372037 0).expirationTime = none := by
    decide +kernel
  rw [overflows] at ends
  cases ends

end InMemoryDB
