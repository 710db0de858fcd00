import InMemoryDB.Core.LazyDeletion
import InMemoryDB.Daemons.CalendarQueue

/-! Which of the keys that were scheduled the timing wheel still has: a tick empties its bucket,
whatever becomes of the keys in it.
-/

namespace InMemoryDB

/-- The deadline of a key's entry, if it has one. -/
def ShardRouter.deadline (router : ShardRouter) (key : Bytes) : Option Int :=
  (router.entry key).bind fun value => deadlineOf value.ttlSeconds value.createdAt

theorem ShardRouter.deadline_eq_some {router : ShardRouter} {key : Bytes} {expiry : Int}
    : router.deadline key = some expiry
      ↔ ∃ value,
          router.entry key = some value
          ∧ 0 ≤ value.ttlSeconds
          ∧ value.createdAt + value.ttlSeconds * nanosecondsPerSecond = expiry := by
  simp [deadline, Option.bind_eq_some_iff, deadlineOf]

/-- A command leaves an entry of its own time, or one that was there before with its lifetime,
whatever memory it is refused.
-/
theorem ICommand.lifetime_execute {refusals : Refusals} {now : Int} {command : ICommand}
    {router : ShardRouter} {aof : AofLogger} {key : Bytes} {value : CacheAlignedValue}
    (left : (command.execute refusals now router aof).router.entry key = some value)
    : value.createdAt = now
      ∨ ∃ earlier,
          router.entry key = some earlier
          ∧ value.createdAt = earlier.createdAt
          ∧ value.ttlSeconds = earlier.ttlSeconds := by
  rcases command.execute_none_or_refused refusals now router aof with same | ⟨-, refused⟩
  · rw [same, (command.realizes router aof now).entry] at left
    split at left
    · rename_i own
      have here : command.entryIn router = router.entry key := by
        rw [entryIn, own, Option.bind_some]
      rw [here] at left
      exact lifetime_effect left
    · exact .inr ⟨value, left, rfl, rfl⟩
  · rw [refused] at left
    exact .inr ⟨value, left, rfl, rfl⟩

/-- A sweep leaves entries that were there before, and of its keys only those that were live in
their turn; by induction on the keys.
-/
theorem TimingWheel.entry_sweepEntries {clock : ℕ → Int} {keys : List Bytes}
    {router : ShardRouter} {aof : AofLogger} {key : Bytes} {value : CacheAlignedValue}
    (left : (sweepEntries clock keys router aof).1.entry key = some value)
    : router.entry key = some value
      ∧ (key ∈ keys → ∃ turn, value.isLive (clock turn) = true) := by
  induction keys generalizing clock router aof with
  | nil => exact ⟨left, fun member => nomatch member⟩
  | cons first rest ih =>
      obtain ⟨kept, later⟩ := ih left
      have swept : (router.evictExpired (clock 0) first).2.entry key = some value := kept
      rw [ShardRouter.entry_evictExpired] at swept
      by_cases own : key = first
      · rw [if_pos own, ← own] at swept
        obtain ⟨present, alive⟩ := Option.filter_eq_some_iff.mp swept
        exact ⟨present, fun _ => ⟨0, alive⟩⟩
      · rw [if_neg own] at swept
        refine ⟨swept, fun member => ?_⟩
        obtain ⟨turn, alive⟩ := later ((List.mem_cons.mp member).resolve_left own)
        exact ⟨turn + 1, alive⟩

namespace WheelStore

-----------------------------------------------------------------------------------------
-- What is asked of a run, and what the wheel should do in it
-----------------------------------------------------------------------------------------

/-- The clock does not go back, a key is scheduled for the deadline of its entry, and a tick comes
after its second.
-/
def Timely (store : WheelStore) : Action → Prop
  | .command _ now _ => store.clock ≤ now
  | .schedule key expiry => store.router.deadline key = some expiry
  | .advanceTick clock =>
      (∀ {turn later}, turn ≤ later → clock turn ≤ clock later)
      ∧ store.clock ≤ clock 0
      ∧ store.wheel.startTime + (store.wheel.currentTick + 1) * nanosecondsPerSecond ≤ clock 0

/-- A key is not scheduled for a second behind the lap that begins with the current tick. -/
def WithinLap (store : WheelStore) : Action → Prop
  | .schedule _ expiry => store.day expiry < store.wheel.currentTick + wheelSize
  | .command .. | .advanceTick _ => True

/-- The keys that were scheduled, with their points of time. -/
def scheduled (steps : List (WheelStore × Action)) : List (Bytes × Int) :=
  steps.filterMap fun
    | (_, .schedule key expiry) => some (key, expiry)
    | (_, .command ..) | (_, .advanceTick _) => none

/-- A key whose entry has the deadline it was scheduled for is in some bucket. An entry keeps its
deadline until it is evicted or overwritten.
-/
def Remembers (steps : List (WheelStore × Action)) (store : WheelStore) : Prop :=
  ∀ key expiry,
    (key, expiry) ∈ scheduled steps
    → store.router.deadline key = some expiry
    → ∃ index < wheelSize, key ∈ store.wheel.buckets index

/-- Behind a tick no key that was scheduled into the bucket it emptied has the entry that it was
scheduled for.
-/
def DropsRightly (steps : List (WheelStore × Action)) (store : WheelStore) (action : Action)
    : Prop :=
  match action with
  | .advanceTick _ =>
      ∀ key expiry,
        (key, expiry) ∈ scheduled steps
        → store.wheel.timeToBucket expiry = store.wheel.currentTick % wheelSize
        → (store.after action).router.deadline key ≠ some expiry
  | .command .. | .schedule .. => True

/-- The wheel forgets no key, and every bucket was emptied rightly. -/
structure NeverForgets (steps : List (WheelStore × Action)) (store : WheelStore) : Prop where
  remembers : Remembers steps store
  dropsRightly : TransitionSystem.AlongHistory DropsRightly steps

-----------------------------------------------------------------------------------------
-- The invariant
-----------------------------------------------------------------------------------------

/-- The key waits in its bucket, which comes in its second or later. -/
def Held (store : WheelStore) (key : Bytes) (expiry : Int) : Prop :=
  store.day expiry < store.wheel.currentTick + wheelSize
  ∧ key ∈ store.wheel.buckets (store.wheel.timeToBucket expiry)

/-- The point of time has passed, and the entry is another one, if there is one. -/
def Settled (store : WheelStore) (key : Bytes) (expiry : Int) : Prop :=
  expiry < store.clock ∧ store.router.deadline key ≠ some expiry

/-- No entry comes from the future, and each key that was scheduled waits or is done with. -/
structure Attends (steps : List (WheelStore × Action)) (store : WheelStore) : Prop where
  past : ∀ key value, store.router.entry key = some value → value.createdAt ≤ store.clock
  attended
    : ∀ key expiry,
        (key, expiry) ∈ scheduled steps → store.Held key expiry ∨ store.Settled key expiry

theorem attends_construct (totalMemory exponent : ℕ) (startTime clock : Int)
    : Attends [] (construct totalMemory exponent startTime clock) where
  past key value found := by
    rw [construct, ShardRouter.entry_construct] at found
    cases found
  attended _ _ member := nomatch member

variable {store : WheelStore} {key : Bytes} {expiry : Int}

/-- Entries that commands make have deadlines to come, and the others keep theirs. -/
theorem Settled.command (settled : store.Settled key expiry) {refusals : Refusals} {now : Int}
    {command : ICommand} (later : store.clock ≤ now)
    : (store.after (.command refusals now command)).Settled key expiry := by
  refine ⟨settled.1.trans_le later, fun due => ?_⟩
  obtain ⟨value, found, mortal, deadline⟩ := ShardRouter.deadline_eq_some.mp due
  rcases ICommand.lifetime_execute found with fresh | ⟨earlier, present, created, ttl⟩
  · have passed := settled.1
    have ahead : 0 ≤ value.ttlSeconds * nanosecondsPerSecond := Int.mul_nonneg mortal (by decide)
    omega
  · rw [ttl] at mortal deadline
    rw [created] at deadline
    exact settled.2 (ShardRouter.deadline_eq_some.mpr ⟨earlier, present, mortal, deadline⟩)

/-- A tick leaves entries that were there before, and of its bucket only live ones. -/
theorem entry_advanceTick {clock : ℕ → Int} {value : CacheAlignedValue}
    (left : (store.after (.advanceTick clock)).router.entry key = some value)
    : store.router.entry key = some value
      ∧ (key ∈ store.wheel.buckets (store.wheel.currentTick % wheelSize)
        → ∃ turn, value.isLive (clock turn) = true) :=
  TimingWheel.entry_sweepEntries left

theorem Settled.advanceTick (settled : store.Settled key expiry) {clock : ℕ → Int}
    (timely : store.Timely (.advanceTick clock))
    : (store.after (.advanceTick clock)).Settled key expiry := by
  obtain ⟨monotone, later, -⟩ := timely
  refine ⟨settled.1.trans_le (later.trans (monotone (Nat.zero_le _))), fun due => ?_⟩
  obtain ⟨value, found, deadline⟩ := ShardRouter.deadline_eq_some.mp due
  exact settled.2 (ShardRouter.deadline_eq_some.mpr ⟨value, (entry_advanceTick found).1, deadline⟩)

/-- A key that waits in the bucket of the tick has its second behind it, so it is evicted if its
entry is still the one that it was scheduled for.
-/
theorem Held.swept (held : store.Held key expiry) {clock : ℕ → Int}
    (timely : store.Timely (.advanceTick clock))
    (past : ∀ value, store.router.entry key = some value → value.createdAt ≤ store.clock)
    (here : store.wheel.timeToBucket expiry = store.wheel.currentTick % wheelSize)
    : (store.after (.advanceTick clock)).Settled key expiry := by
  obtain ⟨near, waiting⟩ := held
  obtain ⟨monotone, later, second⟩ := timely
  have reached : store.day expiry ≤ store.wheel.currentTick := by
    rw [timeToBucket_eq] at here
    have lap : (store.day expiry).toNat < store.wheel.currentTick + wheelSize := by
      rw [wheelSize] at near ⊢
      omega
    have tick := Calendar.le_of_mod_eq lap here
    omega
  have passed : expiry < clock 0 := by
    rw [day, nanosecondsPerSecond] at reached
    rw [nanosecondsPerSecond] at second
    omega
  refine ⟨passed.trans_le (monotone (Nat.zero_le _)), fun due => ?_⟩
  obtain ⟨value, found, mortal, deadline⟩ := ShardRouter.deadline_eq_some.mp due
  obtain ⟨before, alive⟩ := entry_advanceTick found
  obtain ⟨turn, live⟩ := alive (here ▸ waiting)
  have turned : clock 0 ≤ clock turn := monotone (Nat.zero_le turn)
  have expired : value.isExpired (clock turn) = true :=
    (CacheAlignedValue.isExpired_iff ((past value before).trans (later.trans turned))).mpr
      ⟨mortal, by omega⟩
  rw [CacheAlignedValue.isLive, expired, Bool.not_true, Bool.and_false] at live
  cases live

/-- The wheel started when it did. -/
theorem day_after (store : WheelStore) (action : Action) (expiry : Int)
    : (store.after action).day expiry = store.day expiry := by
  cases action with
  | command | schedule | advanceTick => rfl

theorem timeToBucket_after (store : WheelStore) (action : Action) (expiry : Int)
    : (store.after action).wheel.timeToBucket expiry = store.wheel.timeToBucket expiry := by
  rw [timeToBucket_eq, timeToBucket_eq, day_after]

/-- A key that waits in another bucket waits on. -/
theorem Held.waits (held : store.Held key expiry) {clock : ℕ → Int}
    (elsewhere : store.wheel.timeToBucket expiry ≠ store.wheel.currentTick % wheelSize)
    : (store.after (.advanceTick clock)).Held key expiry := by
  obtain ⟨near, waiting⟩ := held
  have turned
      : ((store.after (.advanceTick clock)).wheel.currentTick : Int)
        = store.wheel.currentTick + 1 := rfl
  have kept
      : (store.after (.advanceTick clock)).wheel.buckets (store.wheel.timeToBucket expiry)
        = store.wheel.buckets (store.wheel.timeToBucket expiry) :=
    if_neg elsewhere
  rw [Held, day_after, timeToBucket_after, turned, kept]
  exact ⟨by omega, waiting⟩

theorem mem_buckets_schedule {other : Bytes} {time : Int} {index : ℕ}
    : key ∈ (store.after (.schedule other time)).wheel.buckets index
      ↔ key ∈ store.wheel.buckets index ∨ index = store.wheel.timeToBucket time ∧ key = other := by
  change key ∈ (if index = store.wheel.timeToBucket time then _ else _) ↔ _
  split_ifs with here
  · rw [List.mem_append, List.mem_singleton, and_iff_right here]
  · rw [or_iff_left fun scheduled => here scheduled.1]

/-- What is scheduled stays in its bucket, whatever else is. -/
theorem Held.schedule (held : store.Held key expiry) (other : Bytes) (time : Int)
    : (store.after (.schedule other time)).Held key expiry := by
  rw [Held, day_after, timeToBucket_after, mem_buckets_schedule]
  exact ⟨held.1, .inl held.2⟩

/-- A key that is scheduled within the lap is in its bucket. -/
theorem held_schedule (within : store.WithinLap (.schedule key expiry))
    : (store.after (.schedule key expiry)).Held key expiry := by
  rw [Held, day_after, timeToBucket_after, mem_buckets_schedule]
  exact ⟨within, .inr ⟨rfl, rfl⟩⟩

-----------------------------------------------------------------------------------------
-- Whole runs
-----------------------------------------------------------------------------------------

/-- Every timely step puts no entry into the future. -/
theorem past_after {action : Action} (timely : store.Timely action)
    (past : ∀ key value, store.router.entry key = some value → value.createdAt ≤ store.clock)
    : ∀ key value,
        (store.after action).router.entry key = some value
        → value.createdAt ≤ (store.after action).clock := by
  intro key value found
  cases action with
  | command refusals now command =>
      rcases ICommand.lifetime_execute found with fresh | ⟨earlier, present, created, -⟩
      · exact fresh.le
      · exact created.le.trans ((past key earlier present).trans timely)
  | schedule other time => exact past key value found
  | advanceTick clock =>
      obtain ⟨monotone, later, -⟩ := timely
      have before := past key value (entry_advanceTick found).1
      exact before.trans (later.trans (monotone (Nat.zero_le _)))

theorem scheduled_snoc (steps : List (WheelStore × Action)) (store : WheelStore) (action : Action)
    : scheduled (steps ++ [(store, action)])
      = scheduled steps ++ scheduled [(store, action)] :=
  List.filterMap_append

/-- Every timely step that keeps to the lap attends to the keys that were scheduled, and to the one
that is.
-/
theorem Attends.step {steps : List (WheelStore × Action)} {store next : WheelStore}
    {action : Action} (attends : Attends steps store)
    (met : store.Timely action ∧ store.WithinLap action) (taken : step store action = some next)
    : Attends (steps ++ [(store, action)]) next := by
  obtain rfl := Option.some.inj taken
  obtain ⟨timely, within⟩ := met
  refine ⟨past_after timely attends.past, fun key expiry member => ?_⟩
  rw [scheduled_snoc] at member
  rcases List.mem_append.mp member with before | here
  · rcases attends.attended key expiry before with held | settled
    · cases action with
      | command refusals now command => exact .inl held
      | schedule other time => exact .inl (held.schedule other time)
      | advanceTick clock =>
          by_cases turn
              : store.wheel.timeToBucket expiry = store.wheel.currentTick % wheelSize
          · exact .inr (held.swept timely (attends.past key) turn)
          · exact .inl (held.waits turn)
    · cases action with
      | command refusals now command => exact .inr (settled.command timely)
      | schedule other time => exact .inr settled
      | advanceTick clock => exact .inr (settled.advanceTick timely)
  · cases action with
    | schedule other time =>
        obtain ⟨rfl, rfl⟩ := Prod.mk.inj (List.mem_singleton.mp here)
        exact .inl (held_schedule within)
    | command | advanceTick => cases here

/-- The keys of the bucket that a tick empties are done with behind it. -/
theorem Attends.dropsRightly {steps : List (WheelStore × Action)} {store : WheelStore}
    {action : Action} (attends : Attends steps store) (timely : store.Timely action)
    : DropsRightly steps store action := by
  cases action with
  | command | schedule => trivial
  | advanceTick clock =>
      intro key expiry member here
      rcases attends.attended key expiry member with held | settled
      · exact (held.swept timely (attends.past key) here).2
      · exact (settled.advanceTick timely).2

theorem Attends.remembers {steps : List (WheelStore × Action)} {store : WheelStore}
    (attends : Attends steps store)
    : Remembers steps store := by
  intro key expiry member due
  rcases attends.attended key expiry member with held | settled
  · refine ⟨_, ?_, held.2⟩
    rw [timeToBucket_eq]
    exact Nat.mod_lt _ (by decide)
  · exact absurd due settled.2

/-- In every timely run in which no key is scheduled for a second behind the lap, the wheel forgets
no key whose entry is still there: what a tick takes out of its bucket has expired, or is not there
or another entry.
-/
theorem neverForgets_of_run {totalMemory exponent : ℕ} {startTime clock : Int}
    {steps : List (WheelStore × Action)} {store : WheelStore}
    (run : TransitionSystem.Run step (construct totalMemory exponent startTime clock) steps store)
    (timely : TransitionSystem.Along Timely steps)
    (within : TransitionSystem.Along WithinLap steps)
    : NeverForgets steps store := by
  have met
      : TransitionSystem.Along (fun store action => store.Timely action ∧ store.WithinLap action)
          steps :=
    fun entry member => ⟨timely entry member, within entry member⟩
  have initial := attends_construct totalMemory exponent startTime clock
  constructor
  · exact (run.invariantHistory Attends.step met initial).remembers
  · exact run.alongHistory (fun attends met => attends.dropsRightly met.1) Attends.step met initial

/-- A value of one second, scheduled for its deadline and swept behind it. -/
theorem neverForgets_of_run_second
    : ∃ steps store,
        NeverForgets steps store
        ∧ scheduled steps = [(ascii "k", 1000000000)]
        ∧ store.router.entry (ascii "k") = none := by
  have traced
      : TransitionSystem.trace step (construct 1024 0 0 0)
          [.command .none 0 (.set (ascii "k") (ascii "v") 1),
            .schedule (ascii "k") 1000000000, .advanceTick fun _ => 1000000000,
            .advanceTick fun _ => 2000000000]
        = some _ := rfl
  refine ⟨_, _, neverForgets_of_run (TransitionSystem.run_of_trace traced) ?_ ?_,
    by decide +kernel, by decide +kernel⟩
  · simp only [TransitionSystem.Along, List.forall_mem_cons, Timely]
    exact ⟨le_rfl, by decide +kernel, ⟨fun _ => le_rfl, by decide +kernel, by decide +kernel⟩,
      ⟨fun _ => le_rfl, by decide +kernel, by decide +kernel⟩, List.forall_mem_nil _⟩
  · simp only [TransitionSystem.Along, List.forall_mem_cons, WithinLap]
    exact ⟨trivial, by decide +kernel, trivial, trivial, List.forall_mem_nil _⟩

/-- A value of the default time to live is scheduled for the bucket of the current tick, which takes
it out with a day to go.
-/
theorem neverForgets_fails
    : ¬ ∀ totalMemory exponent startTime clock steps store,
        TransitionSystem.Run step (construct totalMemory exponent startTime clock) steps store
        → TransitionSystem.Along Timely steps
        → NeverForgets steps store := by
  intro claimed
  have traced
      : TransitionSystem.trace step (construct 1024 0 0 0)
          [.command .none 0 (.set (ascii "k") (ascii "v") 86400),
            .schedule (ascii "k") 86400000000000, .advanceTick fun _ => 1000000000]
        = some _ := rfl
  refine absurd (claimed 1024 0 0 0 _ _ (TransitionSystem.run_of_trace traced) ?_) ?_
  · simp only [TransitionSystem.Along, List.forall_mem_cons, Timely]
    exact ⟨le_rfl, by decide +kernel, ⟨fun _ => le_rfl, by decide +kernel, by decide +kernel⟩,
      List.forall_mem_nil _⟩
  · intro never
    obtain ⟨index, inside, waiting⟩ :=
      never.remembers (ascii "k") 86400000000000 (by decide +kernel) (by decide +kernel)
    -- the bucket of the key is the one of the tick, and the others were empty before
    change ascii "k" ∈ (if index = 0 then [] else if index = 0 then [ascii "k"] else [])
      at waiting
    split_ifs at waiting
    · cases waiting
    · cases waiting

end WheelStore

end InMemoryDB
