import InMemoryDB.Daemons.AofLogger
import InMemoryDB.Engine.ShardRouter

/-! The timing wheel and its sweep of dead entries. -/

namespace InMemoryDB

def wheelSize : ℕ := 86400

/-- The wheel's buckets hold keys; the shard index that the source stores next to each is
always zero and never read.
-/
structure TimingWheel where
  buckets : ℕ → List Bytes := fun _ => []
  startTime : Int
  currentTick : ℕ := 0

namespace TimingWheel

def timeToBucket (wheel : TimingWheel) (expiry : Int) : ℕ :=
  let delta := (expiry - wheel.startTime).tdiv nanosecondsPerSecond
  (if delta < 0 then 0 else delta).toNat % wheelSize

def schedule (key : Bytes) (expiry : Int) (wheel : TimingWheel) : TimingWheel :=
  let bucket := wheel.timeToBucket expiry
  { wheel with
    buckets := fun index =>
      if index = bucket then wheel.buckets index ++ [key] else wheel.buckets index }

/-- The first section of `advance_tick`, which takes the current bucket out of the wheel. -/
def takeBucket (wheel : TimingWheel) : List Bytes × TimingWheel :=
  let current := wheel.currentTick % wheelSize
  (wheel.buckets current,
    {
      wheel with
      buckets := fun index => if index = current then [] else wheel.buckets index,
      currentTick := wheel.currentTick + 1
    })

/-- The record of an eviction. -/
def evictionRecord (key : Bytes) : Bytes := ascii "DEL " ++ key

/-- The loop body of `advance_tick`: evict one key under its shard's lock, then log it. -/
def sweepEntry (now : Int) (key : Bytes) (router : ShardRouter) (aof : AofLogger)
    : ShardRouter × AofLogger :=
  let (evicted, router) := router.evictExpired now key
  (router, if evicted then aof.logUnlessReplaying (evictionRecord key) else aof)

/-- The loop of `advance_tick`; its turns read the clock one after another. -/
def sweepEntries : (clock : ℕ → Int) → List Bytes → ShardRouter → AofLogger
    → ShardRouter × AofLogger
  | _, [], router, aof => (router, aof)
  | clock, key :: rest, router, aof =>
      let (router, aof) := sweepEntry (clock 0) key router aof
      sweepEntries (fun turn => clock (turn + 1)) rest router aof

def advanceTick (clock : ℕ → Int) (wheel : TimingWheel) (router : ShardRouter)
    (aof : AofLogger)
    : TimingWheel × ShardRouter × AofLogger :=
  let (expired, wheel) := wheel.takeBucket
  (wheel, sweepEntries clock expired router aof)

end TimingWheel

end InMemoryDB
