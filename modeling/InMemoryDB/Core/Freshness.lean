import InMemoryDB.Core.Effect

/-! Commands on entries that do not expire. What they reply and leave depends on the data and
the times to live that they find, and not on the clock.
-/

namespace InMemoryDB

/-- The entry has not expired, unless it is deleted. -/
def Fresh (now : Int) (entry : Option CacheAlignedValue) : Prop :=
  ∀ value, entry = some value → value.tombstoned = false → value.isExpired now = false

instance (now : Int) (entry : Option CacheAlignedValue) : Decidable (Fresh now entry) :=
  inferInstanceAs
    (Decidable (∀ value ∈ entry, value.tombstoned = false → value.isExpired now = false))

/-- The data and the time to live of an entry that is not deleted. -/
def content (entry : Option CacheAlignedValue) : Option (ValueVariant × Int) :=
  (entry.filter fun value => !value.tombstoned).map fun value => (value.data, value.ttlSeconds)

/-- The data and the time to live of an entry that the commands would still use. -/
def shown (now : Int) (entry : Option CacheAlignedValue) : Option (ValueVariant × Int) :=
  (liveEntry now entry).map fun value => (value.data, value.ttlSeconds)

theorem Fresh.earlier {now later : Int} {entry : Option CacheAlignedValue}
    (fresh : Fresh later entry) (order : now ≤ later)
    : Fresh now entry := by
  intro value present kept
  by_contra expired
  have gone := CacheAlignedValue.isExpired_mono order (by simpa using expired)
  exact absurd (gone.symm.trans (fresh value present kept)) (by decide)

/-- A fresh entry is live unless it is deleted. -/
theorem Fresh.liveEntry {now : Int} {entry : Option CacheAlignedValue}
    (fresh : Fresh now entry)
    : liveEntry now entry = entry.filter fun value => !value.tombstoned := by
  cases entry with
  | none => rfl
  | some value =>
      cases dead : value.tombstoned with
      | true => simp [liveEntry_some, CacheAlignedValue.isLive, Option.filter_some, dead]
      | false =>
          simp [liveEntry_some, CacheAlignedValue.isLive, Option.filter_some, dead,
            fresh value rfl dead]

theorem Fresh.shown {now : Int} {entry : Option CacheAlignedValue} (fresh : Fresh now entry)
    : shown now entry = content entry := by
  rw [InMemoryDB.shown, fresh.liveEntry, content]

/-- What is live is what the sweeper leaves of a fresh entry. -/
theorem Fresh.content_liveEntry {now : Int} {entry : Option CacheAlignedValue}
    (fresh : Fresh now entry)
    : content (InMemoryDB.liveEntry now entry) = content entry := by
  rw [fresh.liveEntry, content, content, Option.filter_filter]
  simp only [Bool.and_self]

theorem content_eq_some {entry : Option CacheAlignedValue} {data : ValueVariant} {ttl : Int}
    (present : content entry = some (data, ttl))
    : ∃ value,
        entry = some value
        ∧ value.tombstoned = false
        ∧ value.data = data
        ∧ value.ttlSeconds = ttl := by
  obtain ⟨value, kept, same⟩ := Option.map_eq_some_iff.mp present
  obtain ⟨found, alive⟩ := Option.filter_eq_some_iff.mp kept
  obtain ⟨rfl, rfl⟩ := Prod.mk.inj same
  exact ⟨value, found, by simpa using alive, rfl, rfl⟩

theorem content_eq_none {entry : Option CacheAlignedValue} (absent : content entry = none)
    : entry.filter (fun value => !value.tombstoned) = none :=
  Option.map_eq_none_iff.mp absent

-----------------------------------------------------------------------------------------
-- Effects that only differ in the clock
-----------------------------------------------------------------------------------------

/-- Two effects at two points of time with the same reply and the same content. The second
leaves nothing expired where the first does not.
-/
structure Effect.Alike (now instant : Int) (effect other : Effect) : Prop where
  reply : effect.reply = other.reply
  content : content effect.entry = content other.entry
  fresh : Fresh now effect.entry → Fresh instant other.entry

variable {now instant : Int}

/-- Whoever makes a new entry that has not expired gives it some time to live, or none that
ends.
-/
theorem Effect.alike_new (reply : Bytes) (data : ValueVariant) (ttl : Int)
    : Effect.Alike now instant ⟨reply, some (.new data ttl now), true⟩
        ⟨reply, some (.new data ttl instant), true⟩ where
  reply := rfl
  content := rfl
  fresh := by
    intro fresh value present _
    obtain rfl := Option.some.inj present
    have lasting : ttl ≠ 0 := by
      intro zero
      have expired : (CacheAlignedValue.new data ttl now).isExpired now = true :=
        CacheAlignedValue.isExpired_of_zero le_rfl zero
      exact absurd (expired.symm.trans (fresh _ rfl rfl)) (by decide)
    by_contra expired
    have made : (CacheAlignedValue.new data ttl instant).createdAt ≤ instant := le_rfl
    have gone := (CacheAlignedValue.isExpired_iff made).mp (by simpa using expired)
    simp only [CacheAlignedValue.new, nanosecondsPerSecond] at gone
    omega

theorem Effect.alike_unchanged {entry other : Option CacheAlignedValue} (reply : Bytes)
    (same : InMemoryDB.content entry = InMemoryDB.content other) (fresh : Fresh instant other)
    : Effect.Alike now instant ⟨reply, entry, false⟩ ⟨reply, other, false⟩ :=
  ⟨rfl, same, fun _ => fresh⟩

/-- A change in place keeps the time of creation. -/
theorem Effect.alike_replaced {found found' : CacheAlignedValue} (reply : Bytes)
    (data : ValueVariant) (kept : found.tombstoned = false) (kept' : found'.tombstoned = false)
    (ttl : found.ttlSeconds = found'.ttlSeconds) (fresh : Fresh instant (some found'))
    : Effect.Alike now instant ⟨reply, some { found with data := data }, true⟩
        ⟨reply, some { found' with data := data }, true⟩ where
  reply := rfl
  content := by simp [InMemoryDB.content, Option.filter_some, kept, kept', ttl]
  fresh := by
    intro _ value present _
    obtain rfl := Option.some.inj present
    exact fresh found' rfl kept'

namespace ICommand

variable {entry other : Option CacheAlignedValue}

/-- Where nothing is but, perhaps, a tombstone, a command makes a new entry or leaves what is
there; by cases on the command.
-/
theorem alike_of_absent (command : ICommand) (fresh : Fresh now entry)
    (fresh' : Fresh instant other) (absent : content entry = none)
    (absent' : content other = none)
    : (command.effect now entry).Alike now instant (command.effect instant other) := by
  have live : liveEntry now entry = none := fresh.liveEntry.trans (content_eq_none absent)
  have live' : liveEntry instant other = none := fresh'.liveEntry.trans (content_eq_none absent')
  have same := absent.trans absent'.symm
  have deleted {key : Bytes} {now : Int} {entry : Option CacheAlignedValue}
      (absent : content entry = none)
      : (ICommand.del key).effect now entry = ⟨integerReply 0, entry, false⟩ := by
    cases entry with
    | none => rfl
    | some value =>
        have dead : value.tombstoned = true := by
          simpa [Option.filter_some] using content_eq_none absent
        simp only [effect, dead, if_true]
  cases command with
  | set key value ttl => exact Effect.alike_new ..
  | del key =>
      rw [deleted absent, deleted absent']
      exact Effect.alike_unchanged _ same fresh'
  | lpush key value ttl =>
      simp only [effect, live, live']
      exact Effect.alike_new ..
  | hset key field value ttl =>
      simp only [effect, live, live']
      exact Effect.alike_new ..
  | get _ | «exists» _ | ping | lrange _ _ _ | hget _ _ =>
      simp only [effect, live, live']
      exact Effect.alike_unchanged _ same fresh'

/-- On two entries with the same content a command does the same, by cases on the command and
on the kind of value found.
-/
theorem alike_of_present (command : ICommand) {found found' : CacheAlignedValue}
    (fresh : Fresh now (some found)) (fresh' : Fresh instant (some found'))
    (kept : found.tombstoned = false) (kept' : found'.tombstoned = false)
    (data : found.data = found'.data) (ttl : found.ttlSeconds = found'.ttlSeconds)
    : (command.effect now (some found)).Alike now instant
        (command.effect instant (some found')) := by
  have live : liveEntry now (some found) = some found := by
    rw [fresh.liveEntry]
    simp [Option.filter_some, kept]
  have live' : liveEntry instant (some found') = some found' := by
    rw [fresh'.liveEntry]
    simp [Option.filter_some, kept']
  have same : content (some found) = content (some found') := by
    simp [content, Option.filter_some, kept, kept', data, ttl]
  have unchanged (reply : Bytes)
      : Effect.Alike now instant ⟨reply, some found, false⟩ ⟨reply, some found', false⟩ :=
    Effect.alike_unchanged reply same fresh'
  have replaced (reply : Bytes) (data : ValueVariant)
      : Effect.Alike now instant ⟨reply, some { found with data := data }, true⟩
          ⟨reply, some { found' with data := data }, true⟩ :=
    Effect.alike_replaced reply data kept kept' ttl fresh'
  cases command with
  | set key value ttl => exact Effect.alike_new ..
  | del key =>
      simp only [effect, kept, kept', Bool.false_eq_true, if_false]
      exact ⟨rfl, rfl, by rintro - value ⟨⟩ dead; cases dead⟩
  | lpush key value ttl =>
      simp only [effect, live, live', data]
      cases found'.data with
      | list items => exact replaced _ _
      | string _ | integer _ | hash _ => exact unchanged _
  | lrange key start stop =>
      simp only [effect, live, live', data]
      cases found'.data <;> exact unchanged _
  | hset key field value ttl =>
      simp only [effect, live, live', data]
      cases found'.data with
      | hash fields => exact replaced _ _
      | string _ | integer _ | list _ => exact unchanged _
  | hget key field =>
      simp only [effect, live, live', data]
      cases found'.data with
      | hash fields =>
          dsimp only
          cases fields.lookup field <;> exact unchanged _
      | string _ | integer _ | list _ => exact unchanged _
  | get _ | «exists» _ | ping =>
      simp only [effect, live, live', data]
      exact unchanged _

/-- A command has the same effect on fresh entries with the same content, whatever the clocks
show.
-/
theorem alike (command : ICommand) (fresh : Fresh now entry) (fresh' : Fresh instant other)
    (same : content entry = content other)
    : (command.effect now entry).Alike now instant (command.effect instant other) := by
  cases present : content entry with
  | none => exact command.alike_of_absent fresh fresh' present (same.symm.trans present)
  | some pair =>
      obtain ⟨found, rfl, kept, data, ttl⟩ := content_eq_some present
      obtain ⟨found', rfl, kept', data', ttl'⟩ := content_eq_some (same.symm.trans present)
      exact command.alike_of_present fresh fresh' kept kept' (data.trans data'.symm)
        (ttl.trans ttl'.symm)

end ICommand

end InMemoryDB
