import InMemoryDB.Persistence.KeyHistory

/-! Whether every record is applied again when the log is replayed. A list or hash write that
revives an expired entry of another type leaves no record of its removal, and its own
record then meets that entry in the replay.
-/

namespace InMemoryDB

/-- A reply to a write that has done its work. -/
def Succeeds (reply : Bytes) : Prop := reply ≠ wrongTypeReply ∧ reply ≠ oomReply

theorem succeeds_okReply : Succeeds okReply := by unfold Succeeds; decide

theorem succeeds_integerReply (number : Int) : Succeeds (integerReply number) := by
  constructor <;> simp [integerReply, wrongTypeReply, oomReply, ascii]

theorem not_succeeds_wrongTypeReply : ¬ Succeeds wrongTypeReply := fun succeeds => succeeds.1 rfl

-----------------------------------------------------------------------------------------
-- The entry of a run and the replayed one
-----------------------------------------------------------------------------------------

/-- An entry that is absent or tombstoned. -/
def Dead (entry : Option CacheAlignedValue) : Prop :=
  ∀ value, entry = some value → value.tombstoned = true

/-- The entry of the run and the replayed one are both kept, with one type and one time to
live; they may have expired.
-/
def Twins (entry replayed : Option CacheAlignedValue) : Prop :=
  ∃ kept value,
    entry = some kept
    ∧ replayed = some value
    ∧ kept.tombstoned = false
    ∧ value.tombstoned = false
    ∧ value.type = kept.type
    ∧ value.ttlSeconds = kept.ttlSeconds

def Matches (entry replayed : Option CacheAlignedValue) : Prop :=
  Twins entry replayed ∨ Dead entry ∧ Dead replayed

/-- A command adds to a container although the entry of its key, which has expired and has
not been swept, is of another type. An entry without any time to live does not count.
-/
def ICommand.RevivesOtherType (now : Int) (entry : Option CacheAlignedValue)
    (command : ICommand)
    : Prop :=
  ∃ kind value,
    command.container = some kind
    ∧ entry = some value
    ∧ value.tombstoned = false
    ∧ value.isExpired now = true
    ∧ value.ttlSeconds ≠ 0
    ∧ value.type ≠ kind

/-- An entry without a tombstone that is not live has expired. -/
theorem isExpired_of_liveEntry_none {now : Int} {value : CacheAlignedValue}
    (dead : liveEntry now (some value) = none) (kept : value.tombstoned = false)
    : value.isExpired now = true := by
  rw [liveEntry_some, CacheAlignedValue.isLive, kept] at dead
  simpa using dead

/-- After `DEL` the entry is dead. -/
theorem dead_effect_del (now : Int) (key : Bytes) (entry : Option CacheAlignedValue)
    : Dead ((ICommand.del key).effect now entry).entry := by
  cases entry with
  | none => rintro value ⟨⟩
  | some found =>
      cases dead : found.tombstoned with
      | true =>
          simp only [ICommand.effect, dead, if_true]
          rintro value ⟨⟩
          exact dead
      | false =>
          simp only [ICommand.effect, dead, Bool.false_eq_true, if_false]
          rintro value ⟨⟩
          rfl

/-- A record of `DEL` is always applied. -/
theorem succeeds_effect_del (now : Int) (key : Bytes) (entry : Option CacheAlignedValue)
    : Succeeds ((ICommand.del key).effect now entry).reply := by
  unfold ICommand.effect
  cases entry with
  | none => exact succeeds_integerReply 0
  | some found =>
      dsimp only
      split
      · exact succeeds_integerReply 0
      · exact succeeds_integerReply 1

/-- Two containers of one type, one with the time to live of the run's entry, the other
with that of the replayed one, are twins if these are the same.
-/
theorem twins_of_containers {kept value : CacheAlignedValue} (alive : kept.tombstoned = false)
    (live : value.tombstoned = false) (type : value.type = kept.type)
    (ttl : value.ttlSeconds = kept.ttlSeconds)
    : Matches (some kept) (some value) :=
  .inl ⟨kept, value, rfl, rfl, alive, live, type, ttl⟩

/-- A replayed entry that is live matches an entry of the run that is kept. -/
theorem Matches.of_live {entry replayed : Option CacheAlignedValue} {time : Int}
    {value : CacheAlignedValue} (matched : Matches entry replayed)
    (live : liveEntry time replayed = some value)
    : ∃ kept,
        entry = some kept
        ∧ kept.tombstoned = false
        ∧ value.type = kept.type
        ∧ value.ttlSeconds = kept.ttlSeconds := by
  obtain ⟨present, alive, -⟩ := eq_some_of_liveEntry live
  rcases matched with ⟨kept, other, rfl, same, keeps, _, type, ttl⟩ | ⟨_, dead⟩
  · obtain rfl := Option.some.inj (same.symm.trans present)
    exact ⟨kept, rfl, keeps, type, ttl⟩
  · exact absurd (dead value present) (by simp [alive])

/-- A logged command that revives nothing of another type is applied in the replay as it
was in the run, and leaves matching entries; by what it did in the run and what it can do in
the replay.
-/
theorem Matches.effect {command : ICommand} {entry replayed : Option CacheAlignedValue}
    {now time : Int} (matched : Matches entry replayed) (wellFormed : command.WellFormed)
    (containers
      : ∀ value,
          entry = some value
          → value.type = .list ∨ value.type = .hash
          → value.ttlSeconds = defaultTtl)
    (past : ∀ value, replayed = some value → value.createdAt ≤ time)
    (logged : (command.effect now entry).logged = true)
    (careful : ¬ command.RevivesOtherType now entry)
    : Succeeds (command.effect time replayed).reply
      ∧ Matches (command.effect now entry).entry (command.effect time replayed).entry := by
  have acts := command.acts now entry
  generalize command.effect now entry = effect at acts logged ⊢
  cases acts with
  | kept => cases logged
  | written => exact ⟨succeeds_okReply, .inl ⟨_, _, rfl, rfl, rfl, rfl, rfl, rfl⟩⟩
  | deleted present kept =>
      refine ⟨succeeds_effect_del _ _ _, .inr ⟨?_, dead_effect_del _ _ _⟩⟩
      rintro value ⟨⟩
      rfl
  | @made _ kind data adds absent type =>
      have ttl := wellFormed.ttl_of_container adds
      rcases ICommand.effect_of_container adds time replayed with
        ⟨other, _, same, done⟩ | ⟨found, other, number, live, sameKind, same, done⟩
        | ⟨found, live, different, _⟩
      · rw [done]
        exact ⟨succeeds_integerReply _, twins_of_containers rfl rfl (same.trans type.symm) rfl⟩
      · rw [done]
        obtain ⟨kept, rfl, keeps, sameType, sameTtl⟩ := matched.of_live live
        have container : kept.type = kind := sameType.symm.trans sameKind
        have default := containers kept rfl (container ▸ ICommand.container_cases adds)
        exact ⟨succeeds_integerReply _,
          twins_of_containers rfl (eq_some_of_liveEntry live).2.1 (same.trans type.symm)
            (sameTtl.trans (default.trans ttl.symm))⟩
      · -- the replayed entry is live and of another type, so the run's entry has expired
        obtain ⟨kept, rfl, keeps, sameType, sameTtl⟩ := matched.of_live live
        obtain ⟨present, -, unexpired⟩ := eq_some_of_liveEntry live
        refine absurd ⟨kind, kept, adds, rfl, keeps, isExpired_of_liveEntry_none absent keeps,
          ?_, sameType ▸ different⟩ careful
        intro zero
        rw [CacheAlignedValue.isExpired_of_zero (past found present) (sameTtl.trans zero)]
          at unexpired
        cases unexpired
  | @added _ kind kept data number adds live sameKind type =>
      obtain ⟨rfl, keeps, -⟩ := eq_some_of_liveEntry live
      have default := containers kept rfl (sameKind ▸ ICommand.container_cases adds)
      rcases ICommand.effect_of_container adds time replayed with
        ⟨other, _, same, done⟩ | ⟨found, other, number, live, sameKind, same, done⟩
        | ⟨found, live, different, _⟩
      · rw [done]
        exact ⟨succeeds_integerReply _,
          twins_of_containers keeps rfl (same.trans type.symm)
            ((wellFormed.ttl_of_container adds).trans default.symm)⟩
      · rw [done]
        obtain ⟨_, ⟨⟩, -, -, sameTtl⟩ := matched.of_live live
        exact ⟨succeeds_integerReply _,
          twins_of_containers keeps (eq_some_of_liveEntry live).2.1 (same.trans type.symm)
            sameTtl⟩
      · obtain ⟨_, ⟨⟩, -, sameType, -⟩ := matched.of_live live
        exact absurd (sameType.trans sameKind) different

/-- A revival of another type makes a new container, which is logged. -/
theorem ICommand.RevivesOtherType.logged {command : ICommand} {now : Int}
    {entry : Option CacheAlignedValue} (revives : command.RevivesOtherType now entry)
    : (command.effect now entry).logged = true := by
  obtain ⟨kind, kept, adds, rfl, -, expired, -⟩ := revives
  have absent : liveEntry now (some kept) = none := by
    simp [liveEntry_some, CacheAlignedValue.isLive, expired]
  rcases effect_of_container adds now (some kept) with
    ⟨_, _, _, done⟩ | ⟨_, _, _, live, -⟩ | ⟨_, live, -⟩
  · rw [done]
  · simp [absent] at live
  · simp [absent] at live

/-- It fails in a replay that takes no time, where the entry it meets is as young as the
replay itself.
-/
theorem ICommand.RevivesOtherType.fails {command : ICommand} {now time : Int}
    {entry replayed : Option CacheAlignedValue} (revives : command.RevivesOtherType now entry)
    (matched : Matches entry replayed)
    (young : ∀ value, replayed = some value → value.createdAt = time)
    : (command.effect time replayed).reply = wrongTypeReply := by
  obtain ⟨kind, kept, adds, rfl, keeps, -, mortal, different⟩ := revives
  rcases matched with ⟨_, value, ⟨⟩, rfl, -, alive, type, ttl⟩ | ⟨dead, -⟩
  · have unexpired : value.isExpired time = false := by
      have age := young value rfl
      rw [← Bool.not_eq_true, CacheAlignedValue.isExpired_iff age.le]
      rintro ⟨positive, passed⟩
      unfold nanosecondsPerSecond at passed
      omega
    have live : liveEntry time (some value) = some value := by
      simp [liveEntry_some, CacheAlignedValue.isLive, alive, unexpired]
    rcases effect_of_container adds time (some value) with
      ⟨_, gone, -⟩ | ⟨_, _, _, here, same, -⟩ | ⟨_, _, _, done⟩
    · simp [live] at gone
    · obtain rfl := Option.some.inj (live.symm.trans here)
      exact absurd (type.symm.trans same) different
    · rw [done]
  · exact absurd (dead kept rfl) (by simp [keeps])

-----------------------------------------------------------------------------------------
-- The records of one key
-----------------------------------------------------------------------------------------

/-- A step that revives no entry of another type. -/
def Careful (now : Int) (entry : Option CacheAlignedValue) : StoreStep → Prop
  | .command command => ¬ command.RevivesOtherType now entry
  | .evict _ => True

/-- A record of a log to which perhaps one more was added is an earlier one or the last. -/
theorem split_append_ite {records front back : List ICommand} {last record : ICommand}
    {logged : Bool} (whole : records ++ (if logged then [last] else []) = front ++ record :: back)
    : (∃ back, records = front ++ record :: back)
      ∨ (logged = true ∧ record = last ∧ front = records) := by
  cases logged with
  | false => exact .inl ⟨back, by simpa using whole⟩
  | true =>
      rcases List.eq_nil_or_concat back with rfl | ⟨rest, final, rfl⟩
      · obtain ⟨rfl, same⟩ := List.append_inj' whole rfl
        exact .inr ⟨rfl, (List.singleton_inj.mp same).symm, rfl⟩
      · rw [if_pos rfl, List.concat_eq_append, ← List.cons_append, ← List.append_assoc] at whole
        exact .inl ⟨rest, (List.append_inj' whole rfl).1⟩

namespace KeyHistory

variable {allowed : Int → Option CacheAlignedValue → StoreStep → Prop} {key : Bytes}
  {now : Int} {records : List ICommand} {entry : Option CacheAlignedValue}

/-- A sweep and the `DEL` that it logs keep the match. -/
theorem matches_sweep {since limit : Int}
    (matched : ∀ replayed, Restores False since records limit replayed → Matches entry replayed)
    {replayed : Option CacheAlignedValue}
    (restored
      : Restores False since
          (records ++ if entry.any fun value => !value.isLive now then [.del key] else [])
          limit replayed)
    : Matches (liveEntry now entry) replayed := by
  rw [← liveEntry_of_any]
  split
  · rename_i dead
    rw [if_pos dead] at restored
    obtain ⟨time, earlier, -, -, rfl | ⟨⟨⟩, -⟩⟩ := restored.last
    exact .inr ⟨by rintro value ⟨⟩, dead_effect_del _ _ _⟩
  · rename_i live
    rw [if_neg live, List.append_nil] at restored
    exact matched replayed restored

/-- After careful steps every replay matches, and every record is applied in it where the
records before it have led; by induction on the history.
-/
theorem applied (history : KeyHistory Careful key now records entry) (since : Int)
    : (∀ limit replayed, Restores False since records limit replayed → Matches entry replayed)
      ∧ ∀ front record back limit replayed,
          records = front ++ record :: back
          → Restores False since front limit replayed
          → Succeeds (record.effect limit replayed).reply := by
  induction history with
  | nil =>
      refine ⟨?_, by simp⟩
      intro limit replayed restored
      rw [restored.eq_none]
      exact .inr ⟨by rintro value ⟨⟩, by rintro value ⟨⟩⟩
  | later _ _ ih => exact ih
  | @execute now records entry earlier command own wellFormed careful ih =>
      obtain ⟨matched, successful⟩ := ih
      have step (limit : Int) (replayed : Option CacheAlignedValue)
          (restored : Restores False since records limit replayed)
          (logged : (command.effect now entry).logged = true) :=
        (matched limit replayed restored).effect wellFormed earlier.container_ttl
          (fun value found => (restored.createdAt value found).2) logged careful
      constructor
      · intro limit replayed restored
        cases logged : (command.effect now entry).logged with
        | true =>
            rw [if_pos logged] at restored
            obtain ⟨time, before, -, earlier, rfl | ⟨⟨⟩, -⟩⟩ := restored.last
            exact (step time before earlier logged).2
        | false =>
            rw [logged, if_neg (by simp), List.append_nil] at restored
            rw [ICommand.effect_of_unlogged logged]
            exact matched limit replayed restored
      · intro front record back limit replayed whole restored
        rcases split_append_ite whole with ⟨rest, before⟩ | ⟨logged, rfl, rfl⟩
        · exact successful front record rest limit replayed before restored
        · exact (step limit replayed restored logged).1
  | @sweep now records entry earlier _ ih =>
      obtain ⟨matched, successful⟩ := ih
      refine ⟨fun limit replayed restored => matches_sweep (matched limit) restored, ?_⟩
      intro front record back limit replayed whole restored
      rcases split_append_ite whole with ⟨rest, before⟩ | ⟨-, rfl, rfl⟩
      · exact successful front record rest limit replayed before restored
      · exact succeeds_effect_del _ _ _

/-- Some record of a log fails in every replay that takes no time. -/
def Loses (since : Int) (records : List ICommand) : Prop :=
  ∃ front record back,
    records = front ++ record :: back
    ∧ ∀ replayed,
        Restores False since front since replayed
        → ¬ Succeeds (record.effect since replayed).reply

theorem Loses.append {since : Int} {records : List ICommand} (loses : Loses since records)
    (more : List ICommand)
    : Loses since (records ++ more) := by
  obtain ⟨front, record, back, rfl, fails⟩ := loses
  exact ⟨front, record, back ++ more, by simp, fails⟩

/-- A revival of another type loses its record. -/
theorem loses_of_revives {since : Int} {command : ICommand}
    (matched : ∀ replayed, Restores False since records since replayed → Matches entry replayed)
    (revives : command.RevivesOtherType now entry)
    : Loses since
        (records ++ if (command.effect now entry).logged then [command] else []) := by
  rw [if_pos revives.logged]
  refine ⟨records, command, [], rfl, ?_⟩
  intro replayed restored
  have young (value : CacheAlignedValue) (found : replayed = some value)
      : value.createdAt = since :=
    le_antisymm (restored.createdAt value found).2 (restored.createdAt value found).1
  rw [revives.fails (matched replayed restored) young]
  exact not_succeeds_wrongTypeReply

/-- Whatever was allowed, a replay that takes no time matches unless it loses a record; by
induction on the history.
-/
theorem loses_or_matches (history : KeyHistory allowed key now records entry) (since : Int)
    : Loses since records
      ∨ ∀ replayed, Restores False since records since replayed → Matches entry replayed := by
  induction history with
  | nil =>
      right
      intro replayed restored
      rw [restored.eq_none]
      exact .inr ⟨by rintro value ⟨⟩, by rintro value ⟨⟩⟩
  | later _ _ ih => exact ih
  | @execute now records entry earlier command own wellFormed _ ih =>
      rcases ih with loses | matched
      · exact .inl (loses.append _)
      · by_cases revives : command.RevivesOtherType now entry
        · exact .inl (loses_of_revives matched revives)
        · right
          intro replayed restored
          cases logged : (command.effect now entry).logged with
          | true =>
              rw [if_pos logged] at restored
              obtain ⟨time, before, order, earlier', rfl | ⟨⟨⟩, -⟩⟩ := restored.last
              obtain rfl : time = since := le_antisymm order earlier'.since_le
              exact ((matched before earlier').effect wellFormed earlier.container_ttl
                (fun value found => (earlier'.createdAt value found).2) logged revives).2
          | false =>
              rw [logged, if_neg (by simp), List.append_nil] at restored
              rw [ICommand.effect_of_unlogged logged]
              exact matched replayed restored
  | sweep _ _ ih =>
      rcases ih with loses | matched
      · exact .inl (loses.append _)
      · exact .inr fun replayed restored => matches_sweep matched restored

end KeyHistory

-----------------------------------------------------------------------------------------
-- The whole log
-----------------------------------------------------------------------------------------

/-- No `LPUSH` and no `HSET` of a run meets an entry of another type whose positive time to
live has run out and which has not been swept.
-/
def RevivesNoOtherType (events : List (Surroundings × Event)) (store : LoggedStore) : Prop :=
  AllAllowed Careful (accessesOf events) store

/-- Every line of a log file is executed again with success when it is replayed. -/
def AppliesAgain (clock : ℕ → Int) (totalMemory exponent : ℕ) (file : Bytes) : Prop :=
  ∀ reply
    ∈ ServerBuilder.replayReplies clock (fun _ => .none) (ServerBuilder.getlines file)
        (.construct totalMemory exponent) (AofLogger.setReplaying true { file := file }),
    ∃ text, reply = some text ∧ Succeeds text

namespace Recorded

variable {allowed : Int → Option CacheAlignedValue → StoreStep → Prop} {now : Int}
  {store : LoggedStore} {records : List ICommand}

/-- The log of a store is applied again if each of its records is, on the entry that the
records before it restore.
-/
theorem appliesAgain_iff (recorded : Recorded allowed now store records) (clock : ℕ → Int)
    (totalMemory exponent : ℕ)
    : AppliesAgain clock totalMemory exponent store.aof.shutdown.file
      ↔ ∀ front record back key,
          records = front ++ record :: back
          → record.key? = some key
          → Succeeds
              (record.effect (clock front.length)
                ((ServerBuilder.replayLines clock (fun _ => .none)
                  (front.map ICommand.serialize) (.construct totalMemory exponent)
                  (AofLogger.setReplaying true { file := store.aof.shutdown.file })).1.entry
                    key)).reply := by
  have wellFormed := fun record member => (recorded.wellFormed record member).1
  have file : store.aof.shutdown.file = encodeLines (records.map ICommand.serialize) :=
    (AofLogger.file_shutdown recorded.ready).trans recorded.content
  have replied (front : List ICommand) (record : ICommand) {key : Bytes}
      (own : record.key? = some key) (router : ShardRouter) (aof : AofLogger)
      : (record.execute .none (clock front.length) router aof).reply
        = (record.effect (clock front.length) (router.entry key)).reply := by
    rw [(record.realizes router aof _).reply, ICommand.entryIn, own, Option.bind_some]
  unfold AppliesAgain
  rw [file, ServerBuilder.getlines_serialized wellFormed]
  simp only [ServerBuilder.mem_replayReplies wellFormed]
  constructor
  · intro applied front record back key whole own
    obtain ⟨text, same, succeeds⟩ := applied _ ⟨front, record, back, whole, rfl⟩
    obtain rfl := Option.some.inj same
    rwa [replied front record own] at succeeds
  · rintro applied _ ⟨front, record, back, whole, rfl⟩
    obtain ⟨key, own⟩ := recorded.keyed record (by simp [whole])
    refine ⟨_, rfl, ?_⟩
    rw [replied front record own]
    exact applied front record back key whole own

/-- After careful steps the log is applied again by every replay. -/
theorem appliesAgain (recorded : Recorded Careful now store records) {clock : ℕ → Int}
    (monotone : Monotone clock) (totalMemory exponent : ℕ)
    : AppliesAgain clock totalMemory exponent store.aof.shutdown.file := by
  rw [recorded.appliesAgain_iff]
  intro front record back key whole own
  have wellFormed (record : ICommand) (member : record ∈ front) : record.WellFormed :=
    (recorded.wellFormed record (by simp [whole, member])).1
  refine ((recorded.history key).applied (clock 0)).2 (recordsOf key front) record
    (recordsOf key back) _ _ ?_
    ((ServerBuilder.restores_replayLines monotone _ totalMemory exponent rfl wellFormed le_rfl
      key).of_roomy (by simp))
  rw [whole, ← List.singleton_append, recordsOf_append, recordsOf_append, recordsOf_own own,
    List.singleton_append]

/-- A log that loses a record of some key is not applied again by a replay that takes no
time.
-/
theorem not_appliesAgain (recorded : Recorded allowed now store records) {time : Int}
    {key : Bytes} (loses : KeyHistory.Loses time (recordsOf key records))
    (totalMemory exponent : ℕ)
    : ¬ AppliesAgain (fun _ => time) totalMemory exponent store.aof.shutdown.file := by
  rw [recorded.appliesAgain_iff]
  intro applied
  obtain ⟨before, record, after, split, fails⟩ := loses
  obtain ⟨front, rest, rfl, rfl, others⟩ := List.filter_eq_append_iff.mp split
  obtain ⟨gap, back, rfl, passed, own, rfl⟩ := List.filter_eq_cons_iff.mp others
  have same : recordsOf key (front ++ gap) = recordsOf key front := by
    rw [recordsOf_append, recordsOf, recordsOf, List.filter_eq_nil_iff.mpr passed,
      List.append_nil]
  have wellFormed (record : ICommand) (member : record ∈ front ++ gap) : record.WellFormed :=
    (recorded.wellFormed record (by
      rw [← List.append_assoc]
      exact List.mem_append_left _ member)).1
  have constant : Monotone fun _ : ℕ => time := fun _ _ _ => le_rfl
  have restored := (ServerBuilder.restores_replayLines constant (fun _ => .none) totalMemory
    exponent
    (show (AofLogger.setReplaying true { file := store.aof.shutdown.file }).isReplaying = true
      from rfl)
    wellFormed le_rfl key).of_roomy (by simp)
  rw [same] at restored
  exact fails _ restored
    (applied (front ++ gap) record back key (by simp) (by simpa using own))

end Recorded

/-- In a run that is not careful some record is lost in a replay that takes no time. -/
theorem loses_of_not_careful (totalMemory exponent : ℕ) {events : List (Surroundings × Event)}
    (ordered : InOrder events) (roomy : ∀ event ∈ events, event.1.Roomy) {time : Int}
    (done : ∀ event ∈ events, event.1.finish ≤ time)
    (careless : ¬ RevivesNoOtherType events (.empty totalMemory exponent))
    : ∃ records key,
        Recorded (fun _ _ _ => True) time
          ((LoggedStore.empty totalMemory exponent).performAll events) records
        ∧ KeyHistory.Loses time (recordsOf key records) := by
  simp only [RevivesNoOtherType, AllAllowed, not_forall] at careless
  obtain ⟨front, now, access, back, whole, careless⟩ := careless
  obtain ⟨refusals, command, wellFormed, key, own, revives, rfl⟩ :
      ∃ refusals command wellFormed key,
        command.key? = some key
        ∧ command.RevivesOtherType now
            (((LoggedStore.empty totalMemory exponent).accessAll front).router.entry key)
        ∧ access = .execute refusals command wellFormed := by
    cases access with
    | execute refusals command wellFormed =>
        simp only [Access.Allowed, Careful, not_forall, not_not] at careless
        obtain ⟨key, own, revives⟩ := careless
        exact ⟨refusals, command, wellFormed, key, own, revives, rfl⟩
    | sweep | flushRound => exact absurd trivial careless
  have member : (now, .execute refusals command wellFormed) ∈ accessesOf events := by
    simp [whole]
  obtain rfl := refusals_of_roomy roomy member
  obtain ⟨records, before, after, recorded, history, split⟩ :=
    Recorded.of_run_through totalMemory exponent ordered done (allAllowed_of_any _ _) whole own
  refine ⟨records, key, recorded, ?_⟩
  rw [split]
  refine KeyHistory.Loses.append ?_ after
  rcases history.loses_or_matches time with loses | matched
  · exact loses.append _
  · exact KeyHistory.loses_of_revives matched revives

/-- The log of a run is applied again with success by every later replay exactly when no
`LPUSH` or `HSET` of the run revives an expired entry of another type.
-/
theorem appliesAgain_iff_revivesNoOtherType (totalMemory exponent : ℕ)
    (events : List (Surroundings × Event)) (ordered : InOrder events)
    (roomy : ∀ event ∈ events, event.1.Roomy) (totalMemory' exponent' : ℕ)
    : (∀ clock : ℕ → Int,
        Monotone clock
        → (∀ event ∈ events, event.1.finish ≤ clock 0)
        → AppliesAgain clock totalMemory' exponent'
            ((LoggedStore.empty totalMemory exponent).performAll events).aof.shutdown.file)
      ↔ RevivesNoOtherType events (.empty totalMemory exponent) := by
  constructor
  · intro applied
    by_contra careless
    obtain ⟨time, above⟩ :=
      (List.finite_toSet (events.map fun event => event.1.finish)).bddAbove
    have done (event : Surroundings × Event) (member : event ∈ events)
        : event.1.finish ≤ time :=
      above (List.mem_map.mpr ⟨event, member, rfl⟩)
    obtain ⟨records, key, recorded, loses⟩ :=
      loses_of_not_careful totalMemory exponent ordered roomy done careless
    exact recorded.not_appliesAgain loses totalMemory' exponent'
      (applied _ (fun _ _ _ => le_rfl) done)
  · intro careful clock monotone done
    obtain ⟨records, recorded⟩ := Recorded.of_run totalMemory exponent ordered done careful
    exact recorded.appliesAgain monotone totalMemory' exponent'

/-- A list that is pushed to again after it has expired and before it is swept. -/
def revivedList : List (Surroundings × Event) :=
  [(.instant 0, .request (ascii "LPUSH k x")),
    (.instant 86400000000000, .request (ascii "LPUSH k y"))]

theorem appliesAgain_iff_revivesNoOtherType_list
    : InOrder revivedList
      ∧ (∀ event ∈ revivedList, event.1.Roomy)
      ∧ ((∀ clock : ℕ → Int,
          Monotone clock
          → (∀ event ∈ revivedList, event.1.finish ≤ clock 0)
          → AppliesAgain clock 1024 0
              ((LoggedStore.empty 1024 0).performAll revivedList).aof.shutdown.file)
        ↔ RevivesNoOtherType revivedList (.empty 1024 0)) := by
  have ordered : InOrder revivedList := by simp [InOrder, revivedList, Surroundings.instant]
  have roomy : ∀ event ∈ revivedList, event.1.Roomy := by
    simp [revivedList, Surroundings.instant, Surroundings.Roomy]
  exact ⟨ordered, roomy,
    appliesAgain_iff_revivesNoOtherType 1024 0 revivedList ordered roomy 1024 0⟩

/-- A string that has expired and is pushed to before it is swept. -/
def revivedString : List (Surroundings × Event) :=
  [(.instant 0, .request (ascii "SET k v 1")),
    (.instant 2000000000, .request (ascii "LPUSH k x"))]

/-- The `LPUSH` that was answered `:1` is answered `-WRONGTYPE` in the replay. -/
theorem appliesAgain_fails
    : ¬ ∀ (totalMemory exponent : ℕ) (events : List (Surroundings × Event)),
        InOrder events
        → (∀ event ∈ events, event.1.Roomy)
        → ∀ (totalMemory' exponent' : ℕ) (clock : ℕ → Int),
          Monotone clock
          → (∀ event ∈ events, event.1.finish ≤ clock 0)
          → AppliesAgain clock totalMemory' exponent'
              ((LoggedStore.empty totalMemory exponent).performAll events).aof.shutdown.file := by
  intro claim
  have applied := claim 1024 0 revivedString
    (by simp [InOrder, revivedString, Surroundings.instant])
    (by simp [revivedString, Surroundings.instant, Surroundings.Roomy])
    1024 0 (fun _ => 3000000000) (fun _ _ _ => le_rfl)
    (by simp [revivedString, Surroundings.instant])
  have replies
      : ServerBuilder.replayReplies (fun _ => 3000000000) (fun _ => .none)
          (ServerBuilder.getlines
            ((LoggedStore.empty 1024 0).performAll revivedString).aof.shutdown.file)
          (.construct 1024 0)
          (AofLogger.setReplaying true
            { file := ((LoggedStore.empty 1024 0).performAll revivedString).aof.shutdown.file })
        = [some okReply, some wrongTypeReply] := by
    decide
  unfold AppliesAgain at applied
  rw [replies] at applied
  obtain ⟨text, same, succeeds⟩ := applied (some wrongTypeReply) (by simp)
  obtain rfl := Option.some.inj same
  exact not_succeeds_wrongTypeReply succeeds

end InMemoryDB
