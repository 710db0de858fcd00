import InMemoryDB.Persistence.Restoration

/-! What a key holds as long as no time to live runs out, and how a replay of the key's
records gives it back with a later time of creation.
-/

namespace InMemoryDB

/-- A value that a key holds, its time to live, and when it was first written. A time to
live of zero holds nothing.
-/
structure Holding where
  data : ValueVariant
  ttl : Int
  born : Int
  lasting : ttl ≠ 0

namespace Holding

/-- What a write leaves: nothing if its time to live is zero. -/
def write (data : ValueVariant) (ttl born : Int) : Option Holding :=
  if lasting : ttl ≠ 0 then some ⟨data, ttl, born, lasting⟩ else none

end Holding

/-- What the entry of a key holds. -/
def holding : Option CacheAlignedValue → Option Holding
  | none => none
  | some value =>
      if value.tombstoned then none
      else Holding.write value.data value.ttlSeconds value.createdAt

/-- A command on what its key holds. -/
def ICommand.hold (now : Int) (held : Option Holding) : ICommand → Option Holding
  | .set _ value ttl => Holding.write (.string value) ttl now
  | .del _ => none
  | .lpush _ value ttl =>
      match held with
      | none => Holding.write (.list [value]) ttl now
      | some found =>
          match found.data with
          | .list items => some { found with data := .list (items ++ [value]) }
          | _ => held
  | .hset _ field value ttl =>
      match held with
      | none => Holding.write (.hash (Finmap.insert field value ∅)) ttl now
      | some found =>
          match found.data with
          | .hash fields => some { found with data := .hash (fields.insert field value) }
          | _ => held
  | _ => held

theorem ICommand.hold_of_read {command : ICommand} (reads : command.isWrite = false)
    (now : Int) (held : Option Holding)
    : command.hold now held = held := by
  cases command with
  | set | del | lpush | hset => cases reads
  | get | «exists» | ping | lrange | hget => rfl

/-- An entry holds what it should at a point of time: with the right value and time to live,
written no earlier than at first. Where nothing should be held, the entry is absent, deleted
or without any time to live.
-/
def Holds (now : Int) (entry : Option CacheAlignedValue) : Option Holding → Prop
  | none =>
      ∀ value,
        entry = some value
        → value.tombstoned = false
        → value.ttlSeconds = 0 ∧ value.createdAt ≤ now
  | some held =>
      ∃ value,
        entry = some value
        ∧ value.tombstoned = false
        ∧ value.data = held.data
        ∧ value.ttlSeconds = held.ttl
        ∧ held.born ≤ value.createdAt
        ∧ value.createdAt ≤ now

/-- A positive time to live has not run out by a limit. -/
def Lasts (held : Option Holding) (limit : Int) : Prop :=
  ∀ found, held = some found → 0 < found.ttl → limit < found.born + found.ttl * nanosecondsPerSecond

theorem Lasts.before {held : Option Holding} {limit earlier : Int} (lasts : Lasts held limit)
    (order : earlier ≤ limit)
    : Lasts held earlier :=
  fun found same positive => order.trans_lt (lasts found same positive)

theorem lasts_none (limit : Int) : Lasts none limit := by
  rintro found ⟨⟩

-----------------------------------------------------------------------------------------
-- Entries that hold what they should
-----------------------------------------------------------------------------------------

namespace Holds

variable {now : Int} {entry : Option CacheAlignedValue} {held : Option Holding}

/-- Waiting changes nothing. -/
theorem later {later : Int} (holds : Holds now entry held) (order : now ≤ later)
    : Holds later entry held := by
  cases held with
  | none =>
      intro value found kept
      obtain ⟨zero, created⟩ := holds value found kept
      exact ⟨zero, created.trans order⟩
  | some held =>
      obtain ⟨value, found, kept, data, ttl, born, created⟩ := holds
      exact ⟨value, found, kept, data, ttl, born, created.trans order⟩

/-- A fresh entry holds what was written. -/
theorem of_new (data : ValueVariant) (ttl : Int) {born : Int} (order : born ≤ now)
    : Holds now (some (.new data ttl now)) (Holding.write data ttl born) := by
  unfold Holding.write
  split
  · exact ⟨_, rfl, rfl, rfl, rfl, order, le_rfl⟩
  · rename_i zero
    rintro value ⟨⟩ -
    exact ⟨not_not.mp zero, le_rfl⟩

/-- An entry from the past holds what it holds. -/
theorem self (past : ∀ value, entry = some value → value.createdAt ≤ now)
    : Holds now entry (holding entry) := by
  cases entry with
  | none => rintro value ⟨⟩
  | some value =>
      have created := past value rfl
      cases dead : value.tombstoned with
      | true =>
          simp only [holding, dead, if_true]
          rintro other ⟨⟩ kept
          exact absurd dead (by simp [kept])
      | false =>
          simp only [holding, dead, Bool.false_eq_true, if_false, Holding.write]
          split
          · exact ⟨value, rfl, dead, rfl, rfl, le_rfl, created⟩
          · rename_i zero
            rintro other ⟨⟩ -
            exact ⟨not_not.mp zero, created⟩

/-- Nothing held, nothing live. -/
theorem liveEntry_none (holds : Holds now entry none) : liveEntry now entry = none := by
  cases entry with
  | none => rfl
  | some value =>
      cases dead : value.tombstoned with
      | true => simp [liveEntry_some, CacheAlignedValue.isLive, dead]
      | false =>
          obtain ⟨zero, created⟩ := holds value rfl dead
          simp [liveEntry_some, CacheAlignedValue.isLive,
            CacheAlignedValue.isExpired_of_zero created zero]

/-- What is held and lasts is live; the time to live of the entry ends no earlier than
that of the first write.
-/
theorem liveEntry_some {found : Holding} (holds : Holds now entry (some found))
    (lasts : Lasts (some found) now)
    : ∃ value,
        entry = some value
        ∧ liveEntry now entry = some value
        ∧ value.tombstoned = false
        ∧ value.data = found.data
        ∧ value.ttlSeconds = found.ttl
        ∧ found.born ≤ value.createdAt
        ∧ value.createdAt ≤ now := by
  obtain ⟨value, rfl, kept, data, ttl, born, created⟩ := holds
  refine ⟨value, rfl, ?_, kept, data, ttl, born, created⟩
  have fresh : value.isExpired now = false := by
    rw [← Bool.not_eq_true, CacheAlignedValue.isExpired_iff created, ttl]
    rintro ⟨mortal, passed⟩
    have positive : 0 < found.ttl := lt_of_le_of_ne mortal (Ne.symm found.lasting)
    have lasting := lasts found rfl positive
    omega
  simp [InMemoryDB.liveEntry_some, CacheAlignedValue.isLive, kept, fresh]

/-- The live value of an entry and its time to live are those that it should hold. -/
theorem liveValue (holds : Holds now entry held) (lasts : Lasts held now)
    : ((liveEntry now entry).map fun value => (value.data, value.ttlSeconds))
      = held.map fun found => (found.data, found.ttl) := by
  cases held with
  | none =>
      rw [holds.liveEntry_none]
      rfl
  | some found =>
      obtain ⟨value, -, live, -, data, ttl, -⟩ := holds.liveEntry_some lasts
      rw [live, Option.map_some, Option.map_some, data, ttl]

end Holds

-----------------------------------------------------------------------------------------
-- Commands
-----------------------------------------------------------------------------------------

/-- `SET` and `DEL` replace what is there, whatever it is. -/
def ICommand.overwrites : ICommand → Bool
  | .set .. | .del .. => true
  | _ => false

/-- Where nothing is live and nothing held, a command that adds to a container makes the same
value for both.
-/
theorem ICommand.hold_of_absent {command : ICommand} {kind : ValueType}
    (adds : command.container = some kind) {now : Int} {entry : Option CacheAlignedValue}
    (absent : liveEntry now entry = none) (born : Int)
    : ∃ data,
        command.effect now entry = ⟨integerReply 1, some (.new data command.ttl now), true⟩
        ∧ command.hold born none = Holding.write data command.ttl born := by
  cases command with
  | lpush key value ttl =>
      refine ⟨.list [value], ?_, rfl⟩
      simp only [effect, absent]
      rfl
  | hset key field value ttl =>
      refine ⟨.hash (Finmap.insert field value ∅), ?_, rfl⟩
      simp only [effect, absent]
      rfl
  | set | get | del | «exists» | ping | lrange | hget => cases adds

/-- Where the live entry has the value that is held, such a command changes both alike, or finds
the wrong type and changes neither.
-/
theorem ICommand.hold_of_live {command : ICommand} {kind : ValueType}
    (adds : command.container = some kind) {now : Int} {entry : Option CacheAlignedValue}
    {stored : CacheAlignedValue} (live : liveEntry now entry = some stored) {found : Holding}
    (same : stored.data = found.data) (born : Int)
    : (∃ data number,
          command.effect now entry
            = ⟨integerReply number, some { stored with data := data }, true⟩
          ∧ command.hold born (some found) = some { found with data := data })
      ∨ command.effect now entry = ⟨wrongTypeReply, entry, false⟩
        ∧ command.hold born (some found) = some found := by
  cases command with
  | lpush key value ttl =>
      simp only [effect, live, hold, same]
      cases found.data with
      | list items => exact .inl ⟨_, _, rfl, rfl⟩
      | string _ | integer _ | hash _ => exact .inr ⟨rfl, rfl⟩
  | hset key field value ttl =>
      simp only [effect, live, hold, same]
      cases found.data with
      | hash fields => exact .inl ⟨_, _, rfl, rfl⟩
      | string _ | integer _ | list _ => exact .inr ⟨rfl, rfl⟩
  | set | get | del | «exists» | ping | lrange | hget => cases adds

/-- After `SET` or `DEL` any entry holds what it should. -/
theorem Holds.effect_of_overwrites {command : ICommand} (overwrites : command.overwrites = true)
    {born now : Int} (order : born ≤ now) (entry : Option CacheAlignedValue)
    (held : Option Holding)
    : Holds now (command.effect now entry).entry (command.hold born held) := by
  cases command with
  | set key value ttl => exact .of_new _ ttl order
  | del key =>
      cases entry with
      | none => rintro value ⟨⟩
      | some found =>
          cases dead : found.tombstoned with
          | true =>
              simp only [ICommand.effect, dead, if_true]
              rintro value ⟨⟩ kept
              exact absurd dead (by simp [kept])
          | false =>
              simp only [ICommand.effect, dead, Bool.false_eq_true, if_false]
              rintro value ⟨⟩ kept
              exact absurd kept (by simp)
  | get _ | «exists» _ | ping | lpush _ _ _ | lrange _ _ _ | hset _ _ _ _ | hget _ _ =>
      cases overwrites

/-- The other commands keep the time to live that runs. -/
theorem Lasts.of_hold {command : ICommand} (updates : command.overwrites = false)
    {now limit : Int} {held : Option Holding} (lasts : Lasts (command.hold now held) limit)
    : Lasts held limit := by
  cases held with
  | none => exact lasts_none limit
  | some found =>
      cases command with
      | set | del => cases updates
      | lpush | hset =>
          dsimp only [ICommand.hold] at lasts
          split at lasts
          · rintro same ⟨⟩ positive
            have still := lasts _ rfl positive
            exact still
          · exact lasts
      | get _ | «exists» _ | ping | lrange _ _ _ | hget _ _ => exact lasts

/-- A command on an entry that holds what it should leaves one that does so again, by cases
on the command and on whether something is held.
-/
theorem Holds.effect {command : ICommand} {born now : Int} (order : born ≤ now)
    {entry : Option CacheAlignedValue} {held : Option Holding} (holds : Holds now entry held)
    (lasts : Lasts held now)
    : Holds now (command.effect now entry).entry (command.hold born held) := by
  have container {kind : ValueType} (adds : command.container = some kind)
      : Holds now (command.effect now entry).entry (command.hold born held) := by
    cases held with
    | none =>
        obtain ⟨data, made, same⟩ := ICommand.hold_of_absent adds holds.liveEntry_none born
        rw [made, same]
        exact .of_new data command.ttl order
    | some found =>
        obtain ⟨stored, -, live, kept, data, ttl, first, created⟩ := holds.liveEntry_some lasts
        rcases ICommand.hold_of_live adds live data born with
          ⟨changed, number, done, same⟩ | ⟨done, same⟩
        · rw [done, same]
          exact ⟨_, rfl, kept, rfl, ttl, first, created⟩
        · rw [done, same]
          exact holds
  cases writes : command.isWrite with
  | false =>
      obtain ⟨reply, same⟩ := ICommand.effect_of_read writes now entry
      rw [same, ICommand.hold_of_read writes]
      exact holds
  | true =>
      cases command with
      | set | del => exact effect_of_overwrites rfl order entry held
      | lpush | hset => exact container rfl
      | get | «exists» | ping | lrange | hget => cases writes

/-- A command that is not logged changes nothing that is held. -/
theorem Holds.hold_of_unlogged {command : ICommand} {born now : Int}
    {entry : Option CacheAlignedValue} {held : Option Holding} (holds : Holds now entry held)
    (lasts : Lasts held now) (silent : (command.effect now entry).logged = false)
    : command.hold born held = held := by
  have container {kind : ValueType} (adds : command.container = some kind)
      : command.hold born held = held := by
    cases held with
    | none =>
        obtain ⟨data, made, -⟩ := ICommand.hold_of_absent adds holds.liveEntry_none born
        rw [made] at silent
        cases silent
    | some found =>
        obtain ⟨stored, -, live, -, data, -⟩ := holds.liveEntry_some lasts
        rcases ICommand.hold_of_live adds live data born with
          ⟨changed, number, done, -⟩ | ⟨-, same⟩
        · rw [done] at silent
          cases silent
        · exact same
  cases command with
  | set => cases silent
  | del key =>
      cases held with
      | none => rfl
      | some found =>
          obtain ⟨stored, rfl, kept, -⟩ := holds
          simp [ICommand.effect, kept] at silent
  | lpush | hset => exact container rfl
  | get _ | «exists» _ | ping | lrange _ _ _ | hget _ _ => rfl

theorem holding_some {value : CacheAlignedValue} (kept : value.tombstoned = false)
    : holding (some value) = Holding.write value.data value.ttlSeconds value.createdAt := by
  simp [holding, kept]

/-- What is held is the value of an entry without a tombstone. -/
theorem holding_eq_some {entry : Option CacheAlignedValue} {found : Holding}
    (held : holding entry = some found)
    : ∃ value,
        entry = some value
        ∧ value.tombstoned = false
        ∧ found.data = value.data
        ∧ found.ttl = value.ttlSeconds
        ∧ found.born = value.createdAt := by
  cases entry with
  | none => cases held
  | some value =>
      cases dead : value.tombstoned with
      | true => simp [holding, dead] at held
      | false =>
          rw [holding_some dead, Holding.write] at held
          split at held
          · obtain rfl := Option.some.inj held
            exact ⟨value, rfl, dead, rfl, rfl, rfl⟩
          · cases held

/-- Changing the value of an entry in place changes the value that is held. -/
theorem holding_replaced {value : CacheAlignedValue} {found : Holding}
    (held : holding (some value) = some found) (data : ValueVariant)
    : holding (some { value with data := data }) = some { found with data := data } := by
  obtain ⟨same, ⟨⟩, kept, -, ttl, born⟩ := holding_eq_some held
  obtain ⟨_, _, _, lasting⟩ := found
  obtain rfl : _ = value.ttlSeconds := ttl
  obtain rfl : _ = value.createdAt := born
  have written : holding (some { value with data := data })
      = Holding.write data value.ttlSeconds value.createdAt := holding_some kept
  rw [written, Holding.write, dif_pos lasting]

/-- What the entry holds after a command is what the command makes of what it held. -/
theorem holding_effect (command : ICommand) {now : Int} {entry : Option CacheAlignedValue}
    (past : ∀ value, entry = some value → value.createdAt ≤ now)
    (lasts : Lasts (holding entry) now)
    : holding (command.effect now entry).entry = command.hold now (holding entry) := by
  have holds := Holds.self past
  have container {kind : ValueType} (adds : command.container = some kind)
      : holding (command.effect now entry).entry = command.hold now (holding entry) := by
    cases held : holding entry with
    | none =>
        rw [held] at holds
        obtain ⟨data, made, same⟩ := ICommand.hold_of_absent adds holds.liveEntry_none now
        rw [made, same]
        exact holding_some rfl
    | some found =>
        rw [held] at holds lasts
        obtain ⟨stored, rfl, live, -, data, -⟩ := holds.liveEntry_some lasts
        rcases ICommand.hold_of_live adds live data now with
          ⟨changed, number, done, same⟩ | ⟨done, same⟩
        · rw [done, same]
          exact holding_replaced held changed
        · rw [done, same]
          exact held
  cases writes : command.isWrite with
  | false =>
      obtain ⟨reply, same⟩ := ICommand.effect_of_read writes now entry
      rw [same, ICommand.hold_of_read writes]
  | true =>
      cases command with
      | set key value ttl => rfl
      | del key =>
          cases entry with
          | none => rfl
          | some found =>
              cases dead : found.tombstoned with
              | true => simp [ICommand.effect, dead, holding, ICommand.hold]
              | false => simp [ICommand.effect, dead, holding, ICommand.hold]
      | lpush | hset => exact container rfl
      | get | «exists» | ping | lrange | hget => cases writes

-----------------------------------------------------------------------------------------
-- Sweeps
-----------------------------------------------------------------------------------------

/-- A sweep takes nothing that is held. -/
theorem Holds.sweep {now : Int} {entry : Option CacheAlignedValue} {held : Option Holding}
    (holds : Holds now entry held) (lasts : Lasts held now)
    : Holds now (liveEntry now entry) held := by
  cases held with
  | none =>
      rw [holds.liveEntry_none]
      rintro value ⟨⟩
  | some found =>
      obtain ⟨stored, rfl, live, -⟩ := holds.liveEntry_some lasts
      rw [live]
      exact holds

theorem holding_liveEntry {now : Int} {entry : Option CacheAlignedValue}
    (past : ∀ value, entry = some value → value.createdAt ≤ now)
    (lasts : Lasts (holding entry) now)
    : holding (liveEntry now entry) = holding entry := by
  have holds := Holds.self past
  cases held : holding entry with
  | none =>
      rw [held] at holds
      rw [holds.liveEntry_none]
      rfl
  | some found =>
      rw [held] at holds lasts
      obtain ⟨stored, rfl, live, -⟩ := holds.liveEntry_some lasts
      rw [live, held]

/-- The sweeper logs a `DEL` only where nothing is held. -/
theorem Holds.eq_none_of_swept {now : Int} {entry : Option CacheAlignedValue}
    {held : Option Holding} (holds : Holds now entry held) (lasts : Lasts held now)
    (dead : (entry.any fun value => !value.isLive now) = true)
    : held = none := by
  cases held with
  | none => rfl
  | some found =>
      obtain ⟨stored, rfl, live, -⟩ := holds.liveEntry_some lasts
      rw [InMemoryDB.liveEntry_some] at live
      simp_all

-----------------------------------------------------------------------------------------
-- Records from which a replay restores what is held
-----------------------------------------------------------------------------------------

/-- Every replay of the records that begins from `now` on, with room for everything, gives
the key what it holds, as long as no time to live runs out on the way.
-/
def Replayable (now : Int) (held : Option Holding) (records : List ICommand) : Prop :=
  ∀ limit entry,
    Restores False now records limit entry → Lasts held limit → Holds limit entry held

namespace Replayable

variable {now : Int} {held : Option Holding} {records : List ICommand}

theorem nil (now : Int) : Replayable now none [] := by
  intro limit entry restored _
  rw [restored.eq_none]
  rintro value ⟨⟩

theorem later {later : Int} (replayable : Replayable now held records) (order : now ≤ later)
    : Replayable later held records :=
  fun limit entry restored lasts => replayable limit entry (restored.since_mono order) lasts

/-- One more record restores what its command makes of what was held: `SET` and `DEL`
whatever comes before them, the other commands because the time to live that runs stays
the same.
-/
theorem record (replayable : Replayable now held records) (command : ICommand)
    : Replayable now (command.hold now held) (records ++ [command]) := by
  intro limit entry restored lasts
  obtain ⟨time, earlier, order, before, rfl | ⟨⟨⟩, -, -⟩⟩ := restored.last
  have since := before.since_le
  cases overwrites : command.overwrites with
  | true => exact (Holds.effect_of_overwrites overwrites since earlier held).later order
  | false =>
      have lasting := (lasts.of_hold overwrites).before order
      exact ((replayable time earlier before lasting).effect since lasting).later order

end Replayable

end InMemoryDB
