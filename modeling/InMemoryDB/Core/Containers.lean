import InMemoryDB.Core.Replies
import InMemoryDB.Library.Insertions
import InMemoryDB.Library.Lockstep

/-! The container under one key in a run of commands and evictions, as long as the key stays
live: whatever is done to other keys, its writes act on it one after the other.
-/

namespace InMemoryDB

-----------------------------------------------------------------------------------------
-- Runs, seen from one key
-----------------------------------------------------------------------------------------

namespace StoreStep

/-- The reply to a command, if it is one, and what the step leaves of store and log. -/
def perform (step : Int × StoreStep) (store : ShardRouter × AofLogger)
    : Option Bytes × ShardRouter × AofLogger :=
  match step.2 with
  | .command issued =>
      let done := issued.execute .none step.1 store.1 store.2
      (some done.reply, done.router, done.aof)
  | .evict key => (none, (store.1.evictExpired step.1 key).2, store.2)

/-- The write of a key that a step is, if it is one. -/
def writeOn (key : Bytes) : StoreStep → Option ICommand
  | .command issued =>
      if issued.isWrite ∧ issued.key? = some key then some issued else none
  | .evict _ => none

end StoreStep

/-- The store and the log at the end of a run. -/
def storeAfter (steps : List (Int × StoreStep)) (store : ShardRouter × AofLogger)
    : ShardRouter × AofLogger :=
  (Lockstep.run StoreStep.perform steps store).2

/-- The writes of a key in a run. -/
def writesOn (key : Bytes) (steps : List (Int × StoreStep)) : List ICommand :=
  steps.filterMap fun step => step.2.writeOn key

/-- The replies to the writes of a key. -/
def repliesOn (key : Bytes) : List (Int × StoreStep) → ShardRouter × AofLogger → List Bytes
  | [], _ => []
  | step :: rest, store =>
      let done := StoreStep.perform step store
      let later := repliesOn key rest done.2
      if (step.2.writeOn key).isSome then done.1.toList ++ later else later

/-- A key stays live, from the start of a run if it is live there, from its first write if it is
not, up to a point of time after the run.
-/
def StaysLive (key : Bytes) (now : Int)
    : Bool → List (Int × StoreStep) → ShardRouter × AofLogger → Prop
  | live, [], store => (liveEntry now (store.1.entry key)).isSome = live
  | live, step :: rest, store =>
      let next := (StoreStep.perform step store).2
      if (step.2.writeOn key).isSome then
        (liveEntry step.1 (store.1.entry key)).isSome = live ∧ StaysLive key now true rest next
      else StaysLive key now live rest next

instance decidableStaysLive (key : Bytes) (now : Int)
    : ∀ live steps store, Decidable (StaysLive key now live steps store)
  | live, [], store =>
      inferInstanceAs (Decidable ((liveEntry now (store.1.entry key)).isSome = live))
  | live, step :: rest, store =>
      have later (live : Bool) :=
        decidableStaysLive key now live rest (StoreStep.perform step store).2
      have := later true
      have := later live
      inferInstanceAs
        (Decidable
          (if (step.2.writeOn key).isSome then
            (liveEntry step.1 (store.1.entry key)).isSome = live
            ∧ StaysLive key now true rest (StoreStep.perform step store).2
          else StaysLive key now live rest (StoreStep.perform step store).2))

namespace StoreStep

variable {key : Bytes} {step : Int × StoreStep} {store : ShardRouter × AofLogger}

theorem command_of_writeOn {step : StoreStep} {write : ICommand}
    (writes : step.writeOn key = some write)
    : step = .command write ∧ write.isWrite = true ∧ write.key? = some key := by
  cases step with
  | command issued =>
      simp only [writeOn, Option.ite_none_right_eq_some, Option.some.injEq] at writes
      obtain ⟨⟨kind, own⟩, rfl⟩ := writes
      exact ⟨rfl, kind, own⟩
  | evict other => cases writes

/-- A write of the key has its effect on the key's entry. -/
theorem perform_of_write {write : ICommand} (writes : step.2.writeOn key = some write)
    : (perform step store).1
        = some (write.effect step.1 (store.1.entry key)).reply
      ∧ (perform step store).2.1.entry key
        = (write.effect step.1 (store.1.entry key)).entry := by
  obtain ⟨now, step⟩ := step
  obtain ⟨rfl, -, own⟩ := command_of_writeOn writes
  have realizes := write.realizes store.1 store.2 now
  have entry : write.entryIn store.1 = store.1.entry key := by simp [ICommand.entryIn, own]
  rw [entry] at realizes
  refine ⟨congrArg some realizes.reply, ?_⟩
  exact (realizes.entry key).trans (if_pos own)

/-- Any other step leaves the key's entry, or removes it. -/
theorem perform_of_other (other : step.2.writeOn key = none) {value : CacheAlignedValue}
    (left : (perform step store).2.1.entry key = some value)
    : store.1.entry key = some value := by
  obtain ⟨now, step⟩ := step
  cases step with
  | command issued =>
      have realizes := issued.realizes store.1 store.2 now
      have entry := (realizes.entry key).symm.trans left
      split at entry
      · rename_i own
        have reads : issued.isWrite = false := by simpa [writeOn, own] using other
        obtain ⟨reply, same⟩ :=
          ICommand.effect_of_read reads now (issued.entryIn store.1)
        rw [same] at entry
        simpa [ICommand.entryIn, own] using entry
      · exact entry
  | evict evicted =>
      rw [perform, ShardRouter.entry_evictExpired] at left
      split at left
      · rename_i same
        exact same ▸ (eq_some_of_liveEntry left).1
      · exact left

end StoreStep

-----------------------------------------------------------------------------------------
-- Containers
-----------------------------------------------------------------------------------------

/-- A kind of container and the writes that act on it: they make a new one of an empty one where
nothing is live, and change a live one in place.
-/
structure Container (Contents : Type) where
  empty : Contents
  data : Contents → ValueVariant
  Accepts : ICommand → Prop
  act : ICommand → Contents → Bytes × Contents
  made
    : ∀ {write now entry},
        Accepts write
        → liveEntry now entry = none
        → write.effect now entry
          = ⟨(act write empty).1, some (.new (data (act write empty).2) write.ttl now), true⟩
  added
    : ∀ {write now entry found contents},
        Accepts write
        → liveEntry now entry = some found
        → found.data = data contents
        → write.effect now entry
          = ⟨(act write contents).1, some { found with data := data (act write contents).2 },
            true⟩

namespace Container

variable {Contents : Type} (container : Container Contents)

/-- What a container holds at a point of time. Where nothing is live it is empty. -/
def Holds (now : Int) (entry : Option CacheAlignedValue) (contents : Contents) : Prop :=
  liveEntry now entry = none ∧ contents = container.empty
  ∨ ∃ found, liveEntry now entry = some found ∧ found.data = container.data contents

/-- What is known between the writes: if the key should be live, whatever is under it has the
contents, and else these are empty.
-/
structure Keeps (live : Bool) (entry : Option CacheAlignedValue) (contents : Contents) : Prop where
  fresh : live = false → contents = container.empty
  kept : live = true → ∀ value, entry = some value → value.data = container.data contents

variable {container}

theorem Holds.keeps {now : Int} {entry : Option CacheAlignedValue} {contents : Contents}
    (holds : container.Holds now entry contents)
    : container.Keeps (liveEntry now entry).isSome entry contents := by
  rcases holds with ⟨none, empty⟩ | ⟨found, live, data⟩
  · rw [none]
    exact ⟨fun _ => empty, nofun⟩
  · rw [live]
    refine ⟨nofun, ?_⟩
    intro _ value present
    obtain rfl := Option.some.inj ((eq_some_of_liveEntry live).1.symm.trans present)
    exact data

namespace Keeps

variable {live : Bool} {entry : Option CacheAlignedValue} {contents : Contents}

theorem holds (keeps : container.Keeps live entry contents) {now : Int}
    (stays : (liveEntry now entry).isSome = live)
    : container.Holds now entry contents := by
  cases found : liveEntry now entry with
  | none =>
      rw [found] at stays
      exact .inl ⟨found, keeps.fresh stays.symm⟩
  | some value =>
      rw [found] at stays
      exact .inr ⟨value, found, keeps.kept stays.symm value (eq_some_of_liveEntry found).1⟩

/-- A write acts on the contents, and the key is live from then on. -/
theorem write (keeps : container.Keeps live entry contents) {now : Int}
    (stays : (liveEntry now entry).isSome = live) {write : ICommand}
    (accepted : container.Accepts write)
    : (write.effect now entry).reply = (container.act write contents).1
      ∧ container.Keeps true (write.effect now entry).entry
          (container.act write contents).2 := by
  rcases keeps.holds stays with ⟨none, rfl⟩ | ⟨found, alive, data⟩
  · rw [container.made accepted none]
    refine ⟨rfl, nofun, ?_⟩
    rintro - value ⟨⟩
    rfl
  · rw [container.added accepted alive data]
    refine ⟨rfl, nofun, ?_⟩
    rintro - value ⟨⟩
    rfl

end Keeps

/-- In a run in which the key stays live, its writes are answered as the container answers them,
and it ends as the container does; by induction on the steps.
-/
theorem keeps_of_run {key : Bytes} {now : Int} {steps : List (Int × StoreStep)}
    {store : ShardRouter × AofLogger} {live : Bool} {contents : Contents}
    (accepted : ∀ write ∈ writesOn key steps, container.Accepts write)
    (stays : StaysLive key now live steps store)
    (keeps : container.Keeps live (store.1.entry key) contents)
    : repliesOn key steps store = (Lockstep.run container.act (writesOn key steps) contents).1
      ∧ container.Holds now ((storeAfter steps store).1.entry key)
          (Lockstep.run container.act (writesOn key steps) contents).2 := by
  induction steps generalizing store live contents with
  | nil => exact ⟨rfl, keeps.holds stays⟩
  | cons step rest ih =>
      cases written : step.2.writeOn key with
      | none =>
          simp only [StaysLive, written, Option.isSome_none, Bool.false_eq_true, if_false] at stays
          have same : writesOn key (step :: rest) = writesOn key rest := by
            simp [writesOn, written]
          rw [same] at accepted ⊢
          have next : container.Keeps live ((StoreStep.perform step store).2.1.entry key) contents :=
            ⟨keeps.fresh, fun alive value left =>
              keeps.kept alive value (StoreStep.perform_of_other written left)⟩
          obtain ⟨replies, holds⟩ := ih accepted stays next
          refine ⟨?_, holds⟩
          simpa only [repliesOn, written, Option.isSome_none, Bool.false_eq_true, if_false] using
            replies
      | some write =>
          simp only [StaysLive, written, Option.isSome_some, if_true] at stays
          obtain ⟨here, stays⟩ := stays
          have same : writesOn key (step :: rest) = write :: writesOn key rest := by
            simp [writesOn, written]
          rw [same] at accepted ⊢
          obtain ⟨mine, others⟩ := List.forall_mem_cons.mp accepted
          obtain ⟨answer, entry⟩ := @StoreStep.perform_of_write _ _ store _ written
          obtain ⟨reply, next⟩ := keeps.write here mine
          rw [← entry] at next
          obtain ⟨replies, holds⟩ := ih others stays next
          refine ⟨?_, holds⟩
          simp only [repliesOn, written, Option.isSome_some, if_true, answer, Option.toList_some,
            List.singleton_append, replies, reply, Lockstep.run]

end Container

end InMemoryDB
