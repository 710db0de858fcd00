import InMemoryDB.Core.Effect
import InMemoryDB.Library.ExpiringMap

/-! Lazy deletion against a plain map that removes its bindings at once. Tombstones and
expired entries stay in the shards until a sweep; only `DEL` can tell.
-/

namespace InMemoryDB

open ExpiringMap

-----------------------------------------------------------------------------------------
-- The reference store
-----------------------------------------------------------------------------------------

/-- A value and the instant at which it is removed, if there is one. -/
abbrev ReferenceEntry := Binding ValueVariant Int

abbrev ReferenceStore := Bytes → Option ReferenceEntry

/-- The instant at which a time to live has elapsed; a negative one never does. -/
def deadlineOf (ttl created : Int) : Option Int :=
  if ttl < 0 then none else some (created + ttl * nanosecondsPerSecond)

/-- A command on the binding that its key has at the time, which is `none` from `DEL` or the
deadline on. The new binding comes second.
-/
def ICommand.referenceEffect (now : Int) (present : Option ReferenceEntry)
    : ICommand → Bytes × Option ReferenceEntry
  | .set _ value ttl => (okReply, some ⟨.string value, deadlineOf ttl now⟩)
  | .get _ =>
      match present with
      | none => (nullReply, none)
      | some found => (bulkReply (Shard.rendered found.value), present)
  | .del _ => (integerReply (if present.isSome then 1 else 0), none)
  | .exists _ => (integerReply (if present.isSome then 1 else 0), present)
  | .ping => (pongReply, present)
  | .lpush _ value ttl =>
      match present with
      | none => (integerReply 1, some ⟨.list [value], deadlineOf ttl now⟩)
      | some ⟨.list items, deadline⟩ =>
          (integerReply (items ++ [value]).length, some ⟨.list (items ++ [value]), deadline⟩)
      | some _ => (wrongTypeReply, present)
  | .lrange _ start stop =>
      match present with
      | none => (emptyArrayReply, none)
      | some ⟨.list items, _⟩ => (LRangeCommand.slice items start stop, present)
      | some _ => (wrongTypeReply, present)
  | .hset _ field value ttl =>
      match present with
      | none => (integerReply 1, some ⟨.hash (Finmap.insert field value ∅), deadlineOf ttl now⟩)
      | some ⟨.hash fields, deadline⟩ =>
          (integerReply (if (fields.lookup field).isNone then 1 else 0),
            some ⟨.hash (fields.insert field value), deadline⟩)
      | some _ => (wrongTypeReply, present)
  | .hget _ field =>
      match present with
      | none => (nullReply, none)
      | some ⟨.hash fields, _⟩ =>
          match fields.lookup field with
          | none => (nullReply, present)
          | some value => (bulkReply value, present)
      | some _ => (wrongTypeReply, present)

/-- One command on the reference store, at one instant. -/
def ReferenceStore.execute (now : Int) (command : ICommand) (store : ReferenceStore)
    : Bytes × ReferenceStore :=
  match command.key? with
  | none => ((command.referenceEffect now none).1, store)
  | some key =>
      let done := command.referenceEffect now (present now (store key))
      (done.1, Function.update store key done.2)

def ReferenceStore.replies : List (Int × ICommand) → ReferenceStore → List Bytes
  | [], _ => []
  | (now, command) :: rest, store =>
      let done := store.execute now command
      done.1 :: ReferenceStore.replies rest done.2

-----------------------------------------------------------------------------------------
-- Runs of the store
-----------------------------------------------------------------------------------------

/-- The replies to the commands among the steps, each taken at its instant. -/
def storeReplies : List (Int × StoreStep) → ShardRouter → AofLogger → List Bytes
  | [], _, _ => []
  | (now, .command command) :: rest, router, aof =>
      let done := command.execute .none now router aof
      done.reply :: storeReplies rest done.router done.aof
  | (now, .evict key) :: rest, router, aof =>
      storeReplies rest (router.evictExpired now key).2 aof

/-- The commands of a run, without the evictions between them. -/
def commandsOf (steps : List (Int × StoreStep)) : List (Int × ICommand) :=
  steps.filterMap fun step =>
    match step.2 with
    | .command command => some (step.1, command)
    | .evict _ => none

/-- A `DEL` of a key whose entry has expired and still waits for the sweeper. -/
def ICommand.DeletesExpired (now : Int) (router : ShardRouter) (command : ICommand) : Prop :=
  ∃ key entry,
    command = .del key
    ∧ router.entry key = some entry
    ∧ entry.tombstoned = false
    ∧ entry.isExpired now = true

/-- No step of the run deletes an expired entry that waits for the sweeper. -/
def DeletesNoExpired : List (Int × StoreStep) → ShardRouter → AofLogger → Prop
  | [], _, _ => True
  | (now, .command command) :: rest, router, aof =>
      ¬ command.DeletesExpired now router
      ∧ DeletesNoExpired rest (command.execute .none now router aof).router
          (command.execute .none now router aof).aof
  | (now, .evict key) :: rest, router, aof =>
      DeletesNoExpired rest (router.evictExpired now key).2 aof

-----------------------------------------------------------------------------------------
-- The reference store simulates the shards
-----------------------------------------------------------------------------------------

/-- The binding that an entry in the shards stands for. -/
def CacheAlignedValue.toBinding (value : CacheAlignedValue) : ReferenceEntry :=
  ⟨value.data, deadlineOf value.ttlSeconds value.createdAt⟩

/-- An entry from the past is alive in the reference store as long as it has not expired. -/
theorem CacheAlignedValue.alive_toBinding {value : CacheAlignedValue} {now : Int}
    (created : value.createdAt ≤ now)
    : value.toBinding.alive now = !value.isExpired now := by
  rw [Bool.eq_iff_iff, Bool.not_eq_true', ← Bool.not_eq_true, isExpired_iff created]
  unfold toBinding deadlineOf Binding.alive
  split
  · simp only [Option.all_none, true_iff, not_and]
    omega
  · simp only [Option.all_some, decide_eq_true_eq]
    omega

/-- What the commands see of an entry, as a binding. -/
def visible (now : Int) (entry : Option CacheAlignedValue) : Option ReferenceEntry :=
  (liveEntry now entry).map CacheAlignedValue.toBinding

/-- An entry that is dead at a time shows nothing later either, and one that is live shows
what its binding still does.
-/
theorem visible_later {entry : Option CacheAlignedValue} {now later : Int}
    (created : ∀ value, entry = some value → value.createdAt ≤ now) (order : now ≤ later)
    : visible later entry = present later (visible now entry) := by
  cases entry with
  | none => rfl
  | some value =>
      have past := created value rfl
      have aliveLater := value.alive_toBinding (past.trans order)
      by_cases dead : value.tombstoned = true
      · simp [visible, liveEntry_some, CacheAlignedValue.isLive, dead, present]
      · cases expired : value.isExpired now with
        | true =>
            have gone := CacheAlignedValue.isExpired_mono order expired
            simp [visible, liveEntry_some, CacheAlignedValue.isLive, expired, gone, present]
        | false =>
            cases gone : value.isExpired later <;>
              simp [visible, liveEntry_some, CacheAlignedValue.isLive, dead, expired, gone,
                present, Option.filter_some, aliveLater]

/-- Shards and reference store agree: all entries come from the past, and each key shows
its binding.
-/
structure Simulated (now : Int) (router : ShardRouter) (store : ReferenceStore) : Prop where
  past : ∀ key value, router.entry key = some value → value.createdAt ≤ now
  same : ∀ key, visible now (router.entry key) = present now (store key)

/-- Agreement outlasts any time in which nothing is done. -/
theorem Simulated.later {now later : Int} {router : ShardRouter} {store : ReferenceStore}
    (simulated : Simulated now router store) (order : now ≤ later)
    : Simulated later router store where
  past key value found := (simulated.past key value found).trans order
  same key := by
    rw [visible_later (simulated.past key) order, simulated.same, present_present order]

/-- An entry without a tombstone shows what is left of its binding. -/
theorem visible_some {value : CacheAlignedValue} {now : Int} (past : value.createdAt ≤ now)
    (kept : value.tombstoned = false)
    : visible now (some value) = present now (some value.toBinding) := by
  simp only [visible, liveEntry_some, CacheAlignedValue.isLive, kept, present,
    Option.filter_some, value.alive_toBinding past]
  cases value.isExpired now <;> rfl

/-- What an entry shows is alive. -/
theorem present_visible {entry : Option CacheAlignedValue} {now : Int}
    (past : ∀ value, entry = some value → value.createdAt ≤ now)
    : present now (visible now entry) = visible now entry :=
  (visible_later past le_rfl).symm

/-- A command's effect on an entry matches its effect on a binding. -/
structure Effect.Agrees (now : Int) (effect : Effect)
    (reference : Bytes × Option ReferenceEntry)
    : Prop where
  reply : effect.reply = reference.1
  shown : visible now effect.entry = present now reference.2
  past : ∀ value, effect.entry = some value → value.createdAt ≤ now

/-- Writing a fresh entry agrees with binding its value until its deadline. -/
theorem Effect.agrees_of_new (now : Int) (reply : Bytes) (data : ValueVariant) (ttl : Int)
    : Effect.Agrees now ⟨reply, some (.new data ttl now), true⟩
        (reply, some ⟨data, deadlineOf ttl now⟩) where
  reply := rfl
  shown := visible_some le_rfl rfl
  past value written := by
    obtain rfl := Option.some.inj written
    exact le_rfl

/-- Leaving an entry as it is agrees with leaving the binding that it shows. -/
theorem Effect.agrees_of_unchanged {now : Int} {entry : Option CacheAlignedValue}
    {binding : Option ReferenceEntry} (reply : Bytes) (shown : visible now entry = binding)
    (past : ∀ value, entry = some value → value.createdAt ≤ now)
    : Effect.Agrees now ⟨reply, entry, false⟩ (reply, binding) where
  reply := rfl
  shown := by rw [← shown, present_visible past]
  past := past

/-- Changing a live entry in place agrees with changing its binding's value. -/
theorem Effect.agrees_of_replaced {now : Int} {found : CacheAlignedValue}
    (past : found.createdAt ≤ now) (kept : found.tombstoned = false) (reply : Bytes)
    (data : ValueVariant)
    : Effect.Agrees now ⟨reply, some { found with data := data }, true⟩
        (reply, some ⟨data, deadlineOf found.ttlSeconds found.createdAt⟩) where
  reply := rfl
  shown :=
    have replaced : ({ found with data := data } : CacheAlignedValue).createdAt ≤ now := past
    visible_some replaced kept
  past value written := by
    obtain rfl := Option.some.inj written
    exact past

/-- On an entry that is not live, every command other than a `DEL` of an expired entry
agrees with the reference store on an absent binding, by cases on the command.
-/
theorem ICommand.agrees_of_not_live {now : Int} {entry : Option CacheAlignedValue}
    (command : ICommand) (past : ∀ value, entry = some value → value.createdAt ≤ now)
    (live : liveEntry now entry = none)
    (fresh
      : ∀ key value,
          command = .del key
          → entry = some value
          → value.tombstoned = false
          → value.isExpired now = false)
    : (command.effect now entry).Agrees now (command.referenceEffect now none) := by
  have hidden : visible now entry = none := by rw [visible, live, Option.map_none]
  cases command with
  | set key value ttl => exact Effect.agrees_of_new ..
  | del key =>
      cases entry with
      | none => exact Effect.agrees_of_unchanged _ rfl past
      | some value =>
          have dead : value.tombstoned = true := by
            by_contra kept
            have alive := fresh key value rfl rfl (by simpa using kept)
            simp [liveEntry_some, CacheAlignedValue.isLive, kept, alive] at live
          simp only [effect, dead, if_true]
          exact Effect.agrees_of_unchanged _ hidden past
  | lpush key value ttl =>
      simp only [effect, live]
      exact Effect.agrees_of_new ..
  | hset key field value ttl =>
      simp only [effect, live]
      exact Effect.agrees_of_new ..
  | get _ | «exists» _ | ping | lrange _ _ _ | hget _ _ =>
      simp only [effect, live]
      exact Effect.agrees_of_unchanged _ hidden past

/-- On a live entry, every command agrees with the reference store on its binding, by cases
on the command and on the kind of value found.
-/
theorem ICommand.agrees_of_live {now : Int} {found : CacheAlignedValue} (command : ICommand)
    (past : found.createdAt ≤ now) (live : liveEntry now (some found) = some found)
    : (command.effect now (some found)).Agrees now
        (command.referenceEffect now (some found.toBinding)) := by
  obtain ⟨_, kept, alive⟩ := eq_some_of_liveEntry live
  have shown : visible now (some found) = some found.toBinding := by
    rw [visible, live, Option.map_some]
  have here : ∀ value, some found = some value → value.createdAt ≤ now := by
    rintro value ⟨⟩
    exact past
  unfold CacheAlignedValue.toBinding at shown ⊢
  cases command with
  | set key value ttl => exact Effect.agrees_of_new ..
  | del key =>
      simp only [effect, kept, Bool.false_eq_true, if_false]
      exact { reply := rfl, shown := rfl, past := by rintro value ⟨⟩; exact past }
  | lpush key value ttl =>
      simp only [effect, live]
      cases kind : found.data <;> rw [kind] at shown
      case list items => exact Effect.agrees_of_replaced past kept _ _
      all_goals exact Effect.agrees_of_unchanged _ shown here
  | lrange key start stop =>
      simp only [effect, live]
      cases kind : found.data <;> rw [kind] at shown <;>
        exact Effect.agrees_of_unchanged _ shown here
  | hset key field value ttl =>
      simp only [effect, live]
      cases kind : found.data <;> rw [kind] at shown
      case hash fields => exact Effect.agrees_of_replaced past kept _ _
      all_goals exact Effect.agrees_of_unchanged _ shown here
  | hget key field =>
      simp only [effect, live]
      cases kind : found.data <;> rw [kind] at shown
      case hash fields =>
        simp only [referenceEffect]
        cases fields.lookup field <;> exact Effect.agrees_of_unchanged _ shown here
      all_goals exact Effect.agrees_of_unchanged _ shown here
  | get _ | «exists» _ | ping =>
      simp only [effect, live]
      exact Effect.agrees_of_unchanged _ shown here

-----------------------------------------------------------------------------------------
-- Whole runs
-----------------------------------------------------------------------------------------

/-- One command keeps the agreement and gets the same reply, unless it is a `DEL` of an
expired entry; the entry of its key is covered by the two lemmas above, other keys by the
frame of its execution.
-/
theorem Simulated.execute {now : Int} {router : ShardRouter} {store : ReferenceStore}
    (simulated : Simulated now router store) (aof : AofLogger) (command : ICommand)
    (fresh : ¬ command.DeletesExpired now router)
    : (command.execute .none now router aof).reply = (store.execute now command).1
      ∧ Simulated now (command.execute .none now router aof).router
          (store.execute now command).2 := by
  have done := command.realizes router aof now
  unfold ReferenceStore.execute
  cases own : command.key? with
  | none =>
      obtain rfl : command = .ping := by cases command <;> simp_all [ICommand.key?]
      refine ⟨done.reply, ?_, ?_⟩ <;> intro key
      · simpa [done.entry, ICommand.key?] using simulated.past key
      · simpa [done.entry, ICommand.key?] using simulated.same key
  | some key =>
      have present : command.entryIn router = router.entry key := by
        simp [ICommand.entryIn, own]
      have agrees : (command.effect now (router.entry key)).Agrees now
          (command.referenceEffect now (ExpiringMap.present now (store key))) := by
        rw [← simulated.same key]
        cases live : liveEntry now (router.entry key) with
        | none =>
            rw [visible, live, Option.map_none]
            apply command.agrees_of_not_live (simulated.past key) live
            rintro other value rfl found kept
            obtain rfl : other = key := Option.some.inj own
            by_contra expired
            exact fresh ⟨other, value, rfl, found, kept, by simpa using expired⟩
        | some found =>
            obtain ⟨same, -, -⟩ := eq_some_of_liveEntry live
            rw [visible, live, Option.map_some, same]
            exact command.agrees_of_live (simulated.past key found same) (same ▸ live)
      rw [present] at done
      refine ⟨done.reply.trans agrees.reply, ?_, ?_⟩ <;> intro other
      · rw [done.entry, own]
        split
        · exact agrees.past
        · exact simulated.past other
      · rw [done.entry, own]
        by_cases same : key = other
        · subst other
          simpa using agrees.shown
        · simpa [same, Function.update_of_ne (Ne.symm same)] using simulated.same other

/-- An eviction keeps the agreement, since it takes nothing that shows. -/
theorem Simulated.evict {now : Int} {router : ShardRouter} {store : ReferenceStore}
    (simulated : Simulated now router store) (key : Bytes)
    : Simulated now (router.evictExpired now key).2 store where
  past other value found := by
    rw [ShardRouter.entry_evictExpired] at found
    split at found
    · exact simulated.past key value (eq_some_of_liveEntry found).1
    · exact simulated.past other value found
  same other := by
    rw [ShardRouter.entry_evictExpired, ← simulated.same other]
    split
    · rename_i same
      subst other
      rw [visible, visible, liveEntry, liveEntry, Option.filter_filter]
      simp only [Bool.and_self]
    · rfl

/-- A `DEL` of an expired entry is answered with one, on the reference store with zero. -/
theorem Simulated.reply_ne_of_deletesExpired {now : Int} {router : ShardRouter}
    {store : ReferenceStore} (simulated : Simulated now router store) (aof : AofLogger)
    {command : ICommand} (stale : command.DeletesExpired now router)
    : (command.execute .none now router aof).reply ≠ (store.execute now command).1 := by
  obtain ⟨key, entry, rfl, found, kept, expired⟩ := stale
  have hidden : ExpiringMap.present now (store key) = none := by
    rw [← simulated.same key, found, visible, liveEntry_some, CacheAlignedValue.isLive, expired]
    simp
  rw [((ICommand.del key).realizes router aof now).reply]
  simp only [ICommand.entryIn, ICommand.key?, Option.bind_some, ICommand.effect, found, kept,
    ReferenceStore.execute, ICommand.referenceEffect, hidden]
  change integerReply 1 ≠ integerReply 0
  decide

/-- From agreeing stores on, the replies of a run are those of the reference store exactly
when no `DEL` meets an expired entry; by induction on the run.
-/
theorem Simulated.replies_iff {start : Int} {router : ShardRouter} {store : ReferenceStore}
    (simulated : Simulated start router store) (aof : AofLogger)
    (steps : List (Int × StoreStep)) (ordered : (steps.map Prod.fst).Pairwise (· ≤ ·))
    (after : ∀ step ∈ steps, start ≤ step.1)
    : storeReplies steps router aof = store.replies (commandsOf steps)
      ↔ DeletesNoExpired steps router aof := by
  induction steps generalizing start router store aof with
  | nil => simp [storeReplies, commandsOf, ReferenceStore.replies, DeletesNoExpired]
  | cons step rest ih =>
      obtain ⟨now, step⟩ := step
      obtain ⟨before, sorted⟩ := List.pairwise_cons.mp ordered
      have here := simulated.later (after (now, step) (by simp))
      have later : ∀ step ∈ rest, now ≤ step.1 := by
        intro step member
        exact before step.1 (List.mem_map_of_mem member)
      cases step with
      | command command =>
          change _ :: _ = _ :: _ ↔ _ ∧ _
          by_cases stale : command.DeletesExpired now router
          · simp only [stale, not_true, false_and, iff_false, List.cons.injEq, not_and]
            intro same
            exact absurd same (here.reply_ne_of_deletesExpired aof stale)
          · obtain ⟨reply, next⟩ := here.execute aof command stale
            simpa [reply, stale, commandsOf] using
              ih next (command.execute .none now router aof).aof sorted later
      | evict key => exact ih (here.evict key) aof sorted later

/-- Replies agree with the reference store in every run from an empty store, whatever the
sweeper evicts meanwhile, exactly when no `DEL` meets an expired entry not yet swept.
-/
theorem replies_reference_iff (totalMemory exponent : ℕ) (aof : AofLogger)
    (steps : List (Int × StoreStep)) (ordered : (steps.map Prod.fst).Pairwise (· ≤ ·))
    : storeReplies steps (.construct totalMemory exponent) aof
        = ReferenceStore.replies (commandsOf steps) (fun _ => none)
      ↔ DeletesNoExpired steps (.construct totalMemory exponent) aof := by
  cases steps with
  | nil => simp [storeReplies, commandsOf, ReferenceStore.replies, DeletesNoExpired]
  | cons first rest =>
      have empty : Simulated first.1 (.construct totalMemory exponent) fun _ => none := by
        constructor <;> simp [visible, present]
      apply empty.replies_iff aof _ ordered
      intro step member
      rcases List.mem_cons.mp member with rfl | later
      · exact le_rfl
      · exact (List.pairwise_cons.mp ordered).1 step.1 (List.mem_map_of_mem later)

/-- A key stored for one second, swept after two, and then deleted. -/
def sweptThenDeleted : List (Int × StoreStep) :=
  [(0, .command (.set (ascii "k") (ascii "v") 1)),
    (2000000000, .evict (ascii "k")),
    (2000000000, .command (.del (ascii "k")))]

theorem replies_reference_iff_swept
    : (sweptThenDeleted.map Prod.fst).Pairwise (· ≤ ·)
      ∧ (storeReplies sweptThenDeleted (.construct 1024 0) {}
          = ReferenceStore.replies (commandsOf sweptThenDeleted) (fun _ => none)
        ↔ DeletesNoExpired sweptThenDeleted (.construct 1024 0) {}) :=
  ⟨by decide, replies_reference_iff 1024 0 {} sweptThenDeleted (by decide)⟩

/-- `DEL` of a key whose second has passed replies `:1` before the sweep, where a map without
the key replies `:0`.
-/
theorem replies_reference_fails
    : ¬ ∀ (totalMemory exponent : ℕ) (aof : AofLogger) (steps : List (Int × StoreStep)),
        (steps.map Prod.fst).Pairwise (· ≤ ·)
        → storeReplies steps (.construct totalMemory exponent) aof
          = ReferenceStore.replies (commandsOf steps) (fun _ => none) := by
  intro claim
  have same := claim 1024 0 {}
    [(0, .command (.set (ascii "k") (ascii "v") 1)),
      (2000000000, .command (.del (ascii "k")))]
    (by decide)
  revert same
  decide

end InMemoryDB
