import InMemoryDB.Core.Command
import InMemoryDB.Daemons.TimingWheel
import InMemoryDB.Library.Calendar
import InMemoryDB.Library.Runs

/-! The timing wheel over runs in which keys are scheduled, the sweeper ticks and commands are
executed. Within one lap it is a calendar.
-/

namespace InMemoryDB

/-- The store with its wheel, and the last time that the clock was read. -/
structure WheelStore where
  router : ShardRouter
  aof : AofLogger := {}
  wheel : TimingWheel
  clock : Int

namespace WheelStore

/-- What happens to the store. A tick reads the clock for every key it sweeps, and once more
behind them.
-/
inductive Action where
  | command (refusals : Refusals) (now : Int) (command : ICommand)
  | schedule (key : Bytes) (expiry : Int)
  | advanceTick (clock : ℕ → Int)

/-- A wheel has been constructed at its start time over an empty store. -/
def construct (totalMemory exponent : ℕ) (startTime clock : Int) : WheelStore where
  router := .construct totalMemory exponent
  wheel := { startTime := startTime }
  clock := clock

def after (store : WheelStore) : Action → WheelStore
  | .command refusals now command =>
      let done := command.execute refusals now store.router store.aof
      { store with router := done.router, aof := done.aof, clock := now }
  | .schedule key expiry => { store with wheel := store.wheel.schedule key expiry }
  | .advanceTick clock =>
      let done := store.wheel.advanceTick clock store.router store.aof
      {
        router := done.2.1
        aof := done.2.2
        wheel := done.1
        clock := clock store.wheel.takeBucket.1.length
      }

def step (store : WheelStore) (action : Action) : Option WheelStore := some (store.after action)

/-- The whole seconds from the start of the wheel to a point of time. -/
def day (store : WheelStore) (expiry : Int) : Int :=
  (expiry - store.wheel.startTime) / nanosecondsPerSecond

-----------------------------------------------------------------------------------------
-- Within one lap
-----------------------------------------------------------------------------------------

/-- A key is scheduled for a second of the lap that begins with the current tick. -/
def InLap (store : WheelStore) : Action → Prop
  | .schedule _ expiry =>
      store.wheel.currentTick ≤ store.day expiry
      ∧ store.day expiry < store.wheel.currentTick + wheelSize
  | .command .. | .advanceTick _ => True

instance (store : WheelStore) : DecidablePred store.InLap
  | .schedule .. => inferInstanceAs (Decidable (_ ∧ _))
  | .command .. | .advanceTick _ => inferInstanceAs (Decidable True)

/-- What a step enters into the calendar: a key with its day. -/
def entered : WheelStore × Action → List (ℕ × Bytes)
  | (store, .schedule key expiry) => [((store.day expiry).toNat, key)]
  | (_, .command ..) | (_, .advanceTick _) => []

/-- The keys that a step hands to `evict_expired`, one after another, with the number of the tick
that does. The loop goes through the bucket that was taken.
-/
def handed : WheelStore × Action → List (ℕ × Bytes)
  | (store, .advanceTick _) =>
      store.wheel.takeBucket.1.map fun key => (store.wheel.currentTick, key)
  | (_, .command ..) | (_, .schedule ..) => []

/-- The wheel has the keys of the days to come and has handed out those of the days before. -/
def IsCalendar (steps : List (WheelStore × Action)) (store : WheelStore) : Prop :=
  Calendar.Keeps wheelSize store.wheel.buckets store.wheel.currentTick (steps.flatMap entered)
    (steps.flatMap handed)

/-- A point of time falls into the bucket of its second, one before the start into the first. -/
theorem timeToBucket_eq (store : WheelStore) (expiry : Int)
    : store.wheel.timeToBucket expiry = (store.day expiry).toNat % wheelSize := by
  have cut
      : (if (expiry - store.wheel.startTime).tdiv nanosecondsPerSecond < 0 then 0
          else (expiry - store.wheel.startTime).tdiv nanosecondsPerSecond).toNat
        = (store.day expiry).toNat := by
    rcases Int.le_total 0 (expiry - store.wheel.startTime) with later | earlier
    · rw [day, Int.tdiv_eq_ediv_of_nonneg later]
      split_ifs with negative
      · exact (Int.toNat_of_nonpos negative.le).symm
      · rfl
    · have whole : (expiry - store.wheel.startTime).tdiv nanosecondsPerSecond ≤ 0 := by
        have mirrored : 0 ≤ (-(expiry - store.wheel.startTime)).tdiv nanosecondsPerSecond :=
          Int.tdiv_nonneg (by omega) (by decide)
        rw [Int.neg_tdiv] at mirrored
        omega
      have floored : store.day expiry ≤ 0 := by
        rw [day, nanosecondsPerSecond]
        omega
      rw [Int.toNat_of_nonpos floored]
      split_ifs
      · rfl
      · exact Int.toNat_of_nonpos whole
  exact congrArg (· % wheelSize) cut

/-- Every step that keeps to the lap keeps the calendar. -/
theorem IsCalendar.step {steps : List (WheelStore × Action)} {store next : WheelStore}
    {action : Action} (calendar : IsCalendar steps store) (inLap : store.InLap action)
    (taken : step store action = some next)
    : IsCalendar (steps ++ [(store, action)]) next := by
  obtain rfl := Option.some.inj taken
  unfold IsCalendar
  rw [List.flatMap_append, List.flatMap_singleton, List.flatMap_append, List.flatMap_singleton]
  cases action with
  | command refusals now command =>
      rw [entered, handed, List.append_nil, List.append_nil]
      exact calendar
  | schedule key expiry =>
      obtain ⟨here, near⟩ := inLap
      obtain ⟨second, same⟩ := Int.eq_ofNat_of_zero_le ((Int.natCast_nonneg _).trans here)
      rw [same] at here near
      have entry := calendar.enter key (Int.ofNat_le.mp here) (Int.ofNat_lt.mp near)
      rw [entered, handed, List.append_nil, same, Int.toNat_natCast]
      have bucket : store.wheel.timeToBucket expiry = second % wheelSize := by
        rw [timeToBucket_eq, same, Int.toNat_natCast]
      rwa [← bucket] at entry
  | advanceTick clock =>
      rw [entered, handed, List.append_nil]
      exact calendar.turn (by decide)

end WheelStore

end InMemoryDB
