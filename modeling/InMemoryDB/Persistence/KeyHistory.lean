import InMemoryDB.Persistence.Restoration

/-! The history of one key: how its entry and its records in the log come about together,
step by step, whatever happens to the other keys meanwhile.
-/

namespace InMemoryDB

/-- The entry that a key has at a time and the records that name it in the log, after steps
that were all allowed at their time on the entry they found.
-/
inductive KeyHistory (allowed : Int → Option CacheAlignedValue → StoreStep → Prop)
    (key : Bytes)
    : Int → List ICommand → Option CacheAlignedValue → Prop
  | nil {now} : KeyHistory allowed key now [] none
  | later {before now records entry} (earlier : KeyHistory allowed key before records entry)
    (order : before ≤ now)
    : KeyHistory allowed key now records entry
  | execute {now records entry} (earlier : KeyHistory allowed key now records entry)
    {command : ICommand} (own : command.key? = some key) (wellFormed : command.WellFormed)
    (permitted : allowed now entry (.command command))
    : KeyHistory allowed key now
        (records ++ if (command.effect now entry).logged then [command] else [])
        (command.effect now entry).entry
  | sweep {now records entry} (earlier : KeyHistory allowed key now records entry)
    (permitted : allowed now entry (.evict key))
    : KeyHistory allowed key now
        (records ++ if entry.any fun value => !value.isLive now then [.del key] else [])
        (liveEntry now entry)

namespace KeyHistory

variable {allowed : Int → Option CacheAlignedValue → StoreStep → Prop} {key : Bytes}
  {now : Int} {records : List ICommand} {entry : Option CacheAlignedValue}

/-- Entries come from the past. -/
theorem past (history : KeyHistory allowed key now records entry)
    : ∀ value, entry = some value → value.createdAt ≤ now := by
  induction history with
  | nil => rintro value ⟨⟩
  | later _ order ih => exact fun value found => (ih value found).trans order
  | execute _ _ _ _ ih => exact ICommand.past_effect ih
  | sweep _ _ ih => exact fun value found => ih value (Option.filter_eq_some_iff.mp found).1

/-- A key with an entry is a word, as only a well-formed command makes one. -/
theorem isWord (history : KeyHistory allowed key now records entry)
    : ∀ value, entry = some value → Delimited.IsWord isSpace key := by
  induction history with
  | nil => rintro value ⟨⟩
  | later _ _ ih => exact ih
  | execute _ own wellFormed _ _ => exact fun _ _ => wellFormed.key own
  | sweep _ _ ih => exact fun value found => ih value (Option.filter_eq_some_iff.mp found).1

/-- Every record is a well-formed write that names the key. -/
theorem record (history : KeyHistory allowed key now records entry)
    : ∀ record ∈ records,
        record.key? = some key ∧ record.isWrite = true ∧ record.WellFormed := by
  induction history with
  | nil => simp
  | later _ _ ih => exact ih
  | @execute now _ entry _ command own wellFormed _ ih =>
      refine List.forall_mem_append.mpr ⟨ih, ?_⟩
      split
      · rename_i logged
        have writes : command.isWrite = true := by
          by_contra reads
          obtain ⟨reply, same⟩ := ICommand.effect_of_read (by simpa using reads) now entry
          rw [same] at logged
          cases logged
        simpa using ⟨own, writes, wellFormed⟩
      · simp
  | sweep earlier _ ih =>
      refine List.forall_mem_append.mpr ⟨ih, ?_⟩
      split
      · rename_i dead
        obtain ⟨value, found, -⟩ := (Option.any_eq_true _ _).mp dead
        have word : (ICommand.del key).WellFormed := earlier.isWord value found
        simpa [ICommand.key?, ICommand.isWrite] using word
      · simp

/-- Containers have the default time to live, as the commands that make them name none. -/
theorem container_ttl (history : KeyHistory allowed key now records entry)
    : ∀ value,
        entry = some value
        → value.type = .list ∨ value.type = .hash
        → value.ttlSeconds = defaultTtl := by
  induction history with
  | nil => rintro value ⟨⟩
  | later _ _ ih => exact ih
  | @execute now _ entry _ command _ wellFormed _ ih =>
      intro value left type
      have acts := command.acts now entry
      generalize command.effect now entry = effect at acts left
      cases acts with
      | kept => exact ih value left type
      | written =>
          obtain rfl := Option.some.inj left
          simp [CacheAlignedValue.type, CacheAlignedValue.new, ValueVariant.type] at type
      | deleted present =>
          obtain rfl := Option.some.inj left
          have default := ih _ present type
          exact default
      | made adds =>
          obtain rfl := Option.some.inj left
          exact wellFormed.ttl_of_container adds
      | added adds live same made =>
          obtain rfl := Option.some.inj left
          have default := ih _ (Option.filter_eq_some_iff.mp live).1 (by rwa [same, ← made])
          exact default
  | sweep _ _ ih => exact fun value found => ih value (Option.filter_eq_some_iff.mp found).1

end KeyHistory

-----------------------------------------------------------------------------------------
-- The histories of all keys in a run
-----------------------------------------------------------------------------------------

/-- An access is allowed on the entry it works on. -/
def Access.Allowed (allowed : Int → Option CacheAlignedValue → StoreStep → Prop) (now : Int)
    (store : LoggedStore)
    : Access → Prop
  | .execute _ command _ =>
      ∀ key, command.key? = some key → allowed now (store.router.entry key) (.command command)
  | .sweep key => allowed now (store.router.entry key) (.evict key)
  | .flushRound => True

/-- Every access of a run is allowed in its turn. -/
def AllAllowed (allowed : Int → Option CacheAlignedValue → StoreStep → Prop)
    (accesses : List (Int × Access)) (store : LoggedStore)
    : Prop :=
  ∀ front now access back,
    accesses = front ++ (now, access) :: back
    → access.Allowed allowed now (store.accessAll front)

theorem allAllowed_of_any (accesses : List (Int × Access)) (store : LoggedStore)
    : AllAllowed (fun _ _ _ => True) accesses store := by
  rintro front now (_ | _ | _) back -
  · exact fun _ _ => trivial
  · trivial
  · trivial

theorem AllAllowed.front {allowed : Int → Option CacheAlignedValue → StoreStep → Prop}
    {front back : List (Int × Access)} {store : LoggedStore}
    (permitted : AllAllowed allowed (front ++ back) store)
    : AllAllowed allowed front store := by
  intro first now access rest whole
  exact permitted first now access (rest ++ back) (by simp [whole])

theorem AllAllowed.back {allowed : Int → Option CacheAlignedValue → StoreStep → Prop}
    {front back : List (Int × Access)} {store : LoggedStore}
    (permitted : AllAllowed allowed (front ++ back) store)
    : AllAllowed allowed back (store.accessAll front) := by
  intro first now access rest whole
  rw [← LoggedStore.accessAll_append]
  exact permitted (front ++ first) now access rest (by simp [whole])

/-- A store whose log consists of records that name keys, and in which every key has a
history with its own records.
-/
structure Recorded (allowed : Int → Option CacheAlignedValue → StoreStep → Prop) (now : Int)
    (store : LoggedStore) (records : List ICommand)
    : Prop where
  ready : store.aof.Ready
  content : store.aof.content = encodeLines (records.map ICommand.serialize)
  keyed : ∀ record ∈ records, ∃ key, record.key? = some key
  history
    : ∀ key, KeyHistory allowed key now (recordsOf key records) (store.router.entry key)

namespace Recorded

variable {allowed : Int → Option CacheAlignedValue → StoreStep → Prop} {now : Int}
  {store : LoggedStore} {records : List ICommand}

theorem empty (totalMemory exponent : ℕ) (now : Int)
    : Recorded allowed now (.empty totalMemory exponent) [] where
  ready := ⟨rfl, rfl, rfl⟩
  content := rfl
  keyed := by simp
  history key := by
    simp only [LoggedStore.empty, ShardRouter.entry_construct]
    exact .nil

theorem wellFormed (recorded : Recorded allowed now store records)
    : ∀ record ∈ records, record.WellFormed ∧ record.isWrite = true := by
  intro record member
  obtain ⟨key, own⟩ := recorded.keyed record member
  obtain ⟨-, writes, wellFormed⟩ := (recorded.history key).record record
    (List.mem_filter.mpr ⟨member, by simpa using own⟩)
  exact ⟨wellFormed, writes⟩

theorem later {later : Int} (recorded : Recorded allowed now store records)
    (order : now ≤ later)
    : Recorded allowed later store records :=
  { recorded with history := fun key => .later (recorded.history key) order }

/-- A command that has been executed is one more step for its key and none for the others. -/
theorem execute (recorded : Recorded allowed now store records) {command : ICommand}
    (wellFormed : command.WellFormed) {after : LoggedStore}
    (executed : store.Executed now command after)
    (permitted
      : ∀ key,
          command.key? = some key → allowed now (store.router.entry key) (.command command))
    : Recorded allowed now after
        (records
          ++ if (command.effect now (command.entryIn store.router)).logged then [command]
            else []) where
  ready := executed.ready
  content := by
    rw [executed.content, recorded.content, ← AofLogger.encodeLines_append, List.map_append]
    split <;> rfl
  keyed := by
    refine List.forall_mem_append.mpr ⟨recorded.keyed, ?_⟩
    split
    · rename_i logged
      cases own : command.key? with
      | none =>
          obtain rfl : command = .ping := by cases command <;> simp_all [ICommand.key?]
          cases logged
      | some key => simp [own]
    · simp
  history key := by
    rw [executed.entry, recordsOf_append]
    by_cases own : command.key? = some key
    · have entry : command.entryIn store.router = store.router.entry key := by
        rw [ICommand.entryIn, own, Option.bind_some]
      have step := (recorded.history key).execute own wellFormed (permitted key own)
      rw [if_pos own, entry]
      split
      · rename_i logged
        rw [if_pos logged] at step
        rwa [recordsOf_own own]
      · rename_i silent
        rwa [if_neg silent] at step
    · rw [if_neg own]
      split
      · rw [recordsOf_other own, List.append_nil]
        exact recorded.history key
      · simpa [recordsOf] using recorded.history key

/-- A sweep is one more step for its key and none for the others. -/
theorem sweep (recorded : Recorded allowed now store records) {key : Bytes}
    {after : LoggedStore} (swept : store.Swept now key after)
    (permitted : allowed now (store.router.entry key) (.evict key))
    : Recorded allowed now after
        (records
          ++ if (store.router.entry key).any fun value => !value.isLive now then [.del key]
            else []) where
  ready := swept.ready
  content := by
    rw [swept.content, recorded.content, ← AofLogger.encodeLines_append, List.map_append]
    split <;> rfl
  keyed := by
    refine List.forall_mem_append.mpr ⟨recorded.keyed, ?_⟩
    split <;> simp [ICommand.key?]
  history other := by
    rw [swept.entry, recordsOf_append]
    by_cases same : other = key
    · subst other
      have step := (recorded.history key).sweep permitted
      rw [if_pos rfl]
      split
      · rename_i dead
        rw [if_pos dead] at step
        rwa [recordsOf_own rfl]
      · rename_i live
        rwa [if_neg live] at step
    · rw [if_neg same]
      split
      · rw [recordsOf_other (by simpa [ICommand.key?] using Ne.symm same), List.append_nil]
        exact recorded.history other
      · simpa [recordsOf] using recorded.history other

/-- An allowed access adds its steps to the histories. -/
theorem access (recorded : Recorded allowed now store records) {access : Access}
    (permitted : access.Allowed allowed now store)
    : ∃ more, Recorded allowed now (store.access now access) (records ++ more) := by
  cases access with
  | execute refusals command wellFormed =>
      rcases LoggedStore.executed_or_refused recorded.ready refusals now wellFormed with
        executed | same
      · exact ⟨_, recorded.execute wellFormed executed permitted⟩
      · rw [same]
        exact ⟨[], by simpa using recorded⟩
  | sweep key => exact ⟨_, recorded.sweep (LoggedStore.swept recorded.ready now key) permitted⟩
  | flushRound =>
      refine ⟨[], ?_⟩
      rw [List.append_nil]
      exact { recorded with
        ready := recorded.ready.flushRound
        content := (AofLogger.content_flushRound recorded.ready).trans recorded.content }

/-- Allowed accesses in order add their steps one after the other, by induction on them. -/
theorem accessAll (recorded : Recorded allowed now store records)
    {accesses : List (Int × Access)}
    (sorted : accesses.Pairwise fun earlier later => earlier.1 ≤ later.1) {limit : Int}
    (started : now ≤ limit)
    (within : ∀ access ∈ accesses, now ≤ access.1 ∧ access.1 ≤ limit)
    (permitted : AllAllowed allowed accesses store)
    : ∃ more, Recorded allowed limit (store.accessAll accesses) (records ++ more) := by
  induction accesses generalizing now store records with
  | nil => exact ⟨[], by simpa [LoggedStore.accessAll] using recorded.later started⟩
  | cons first rest ih =>
      obtain ⟨time, access⟩ := first
      obtain ⟨before, sorted⟩ := List.pairwise_cons.mp sorted
      obtain ⟨here, before_limit⟩ := within (time, access) (by simp)
      obtain ⟨more, performed⟩ :=
        (recorded.later here).access (permitted [] time access rest rfl)
      have permitted : AllAllowed allowed ([(time, access)] ++ rest) store := permitted
      obtain ⟨others, done⟩ := ih performed sorted before_limit
        (fun access member => ⟨before access member, (within access (by simp [member])).2⟩)
        permitted.back
      exact ⟨more ++ others, by rwa [← List.append_assoc]⟩

/-- A run from an empty store gives every key a history by any time after its events. -/
theorem of_run (totalMemory exponent : ℕ) {events : List (Surroundings × Event)}
    (ordered : InOrder events) {limit : Int}
    (done : ∀ event ∈ events, event.1.finish ≤ limit)
    (permitted : AllAllowed allowed (accessesOf events) (.empty totalMemory exponent))
    : ∃ records,
        Recorded allowed limit ((LoggedStore.empty totalMemory exponent).performAll events)
          records := by
  obtain ⟨start, begun, within⟩ := accessesOf_within done
  obtain ⟨records, recorded⟩ := (empty totalMemory exponent start).accessAll
    (accessesOf_sorted ordered) begun within permitted
  rw [LoggedStore.performAll_eq]
  exact ⟨records, recorded⟩

/-- Where such a run executes a command on a key, that key has a history until then. Behind
its records come that of the command, if it is logged, and the later ones.
-/
theorem of_run_through (totalMemory exponent : ℕ) {events : List (Surroundings × Event)}
    (ordered : InOrder events) {limit : Int}
    (done : ∀ event ∈ events, event.1.finish ≤ limit)
    (permitted : AllAllowed allowed (accessesOf events) (.empty totalMemory exponent))
    {front back : List (Int × Access)} {now : Int} {command : ICommand}
    {wellFormed : command.WellFormed} {key : Bytes}
    (whole : accessesOf events = front ++ (now, .execute .none command wellFormed) :: back)
    (own : command.key? = some key)
    : let entry := ((LoggedStore.empty totalMemory exponent).accessAll front).router.entry key
      ∃ records before after,
        Recorded allowed limit ((LoggedStore.empty totalMemory exponent).performAll events)
          records
        ∧ KeyHistory allowed key now before entry
        ∧ recordsOf key records
          = (before ++ if (command.effect now entry).logged then [command] else [])
            ++ after := by
  intro entry
  obtain ⟨start, begun, within⟩ := accessesOf_within done
  have sorted := accessesOf_sorted ordered
  rw [whole] at sorted permitted within
  obtain ⟨sortedFront, sortedBack, between⟩ := List.pairwise_append.mp sorted
  obtain ⟨afterwards, sortedBack⟩ := List.pairwise_cons.mp sortedBack
  obtain ⟨here, later⟩ := within (now, .execute .none command wellFormed) (by simp)
  obtain ⟨before, recorded⟩ := (empty totalMemory exponent start).accessAll sortedFront here
    (fun access member =>
      ⟨(within access (by simp [member])).1, between access member _ (by simp)⟩)
    permitted.front
  have step := recorded.execute wellFormed
    (LoggedStore.executed_of_roomy recorded.ready now wellFormed)
    (permitted front now _ back rfl)
  have split : AllAllowed allowed (front ++ [(now, .execute .none command wellFormed)] ++ back)
      (.empty totalMemory exponent) := by simpa using permitted
  have permittedBack := split.back
  rw [LoggedStore.accessAll_append] at permittedBack
  obtain ⟨after, final⟩ := step.accessAll sortedBack later
    (fun access member => ⟨afterwards access member, (within access (by simp [member])).2⟩)
    permittedBack
  have run : (LoggedStore.empty totalMemory exponent).performAll events
      = (((LoggedStore.empty totalMemory exponent).accessAll front).access now
          (.execute .none command wellFormed)).accessAll back := by
    rw [LoggedStore.performAll_eq, whole, LoggedStore.accessAll_append]
    rfl
  have found : command.entryIn ((LoggedStore.empty totalMemory exponent).accessAll front).router
      = entry := by
    rw [ICommand.entryIn, own, Option.bind_some]
  refine ⟨_, recordsOf key ([] ++ before), recordsOf key after, run ▸ final,
    recorded.history key, ?_⟩
  rw [recordsOf_append, recordsOf_append, found]
  split
  · rw [recordsOf_own own]
  · rfl

end Recorded

end InMemoryDB
