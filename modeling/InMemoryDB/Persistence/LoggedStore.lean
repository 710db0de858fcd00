import InMemoryDB.Core.ServerBuilder
import Mathlib.Data.Int.ConditionallyCompleteOrder
import Mathlib.Data.Set.Finite.Lattice
import Mathlib.Data.Set.Finite.List

/-! A store and its log over a run of requests, sweeps and flushes, done one at a time. -/

namespace InMemoryDB

/-- The store of a server and its log. -/
structure LoggedStore where
  router : ShardRouter
  aof : AofLogger

/-- What a piece of work finds around it: the span of time it takes, a clock reading for
each of its turns, and what the arenas refuse in each.
-/
structure Surroundings where
  start : Int
  finish : Int
  clock : ℕ → Int
  refusals : ℕ → Refusals
  monotone : Monotone clock
  within : ∀ turn, start ≤ clock turn ∧ clock turn ≤ finish

/-- Work that takes no time, with room for everything. -/
def Surroundings.instant (now : Int) : Surroundings where
  start := now
  finish := now
  clock _ := now
  refusals _ := .none
  monotone _ _ _ := le_rfl
  within _ := ⟨le_rfl, le_rfl⟩

/-- The arenas have room for everything. -/
def Surroundings.Roomy (around : Surroundings) : Prop := ∀ turn, around.refusals turn = .none

/-- Pieces of work that are done one after the other. -/
def InOrder {α : Type} (run : List (Surroundings × α)) : Prop :=
  run.Pairwise fun earlier later => earlier.1.finish ≤ later.1.start

-----------------------------------------------------------------------------------------
-- Events
-----------------------------------------------------------------------------------------

/-- A request line of a client, a tick of the sweeper, or a round of the flush thread. -/
inductive Event where
  | request (line : Bytes)
  | advanceTick (wheel : TimingWheel)
  | flushRound

namespace LoggedStore

/-- A server that has just been started for the first time. -/
def empty (totalMemory exponent : ℕ) : LoggedStore where
  router := .construct totalMemory exponent
  aof := AofLogger.start {}

/-- A command that the factory has made is executed; a line that makes none is answered
without the store.
-/
def perform (around : Surroundings) (event : Event) (store : LoggedStore) : LoggedStore :=
  match event with
  | .request line =>
      match CommandFactory.parse (tokenize line) with
      | none => store
      | some command =>
          let done :=
            command.execute (around.refusals 0) (around.clock 0) store.router store.aof
          ⟨done.router, done.aof⟩
  | .advanceTick wheel =>
      let (_, router, aof) := wheel.advanceTick around.clock store.router store.aof
      ⟨router, aof⟩
  | .flushRound => { store with aof := store.aof.flushRound }

/-- The store after the events of a run. -/
def performAll (events : List (Surroundings × Event)) (store : LoggedStore) : LoggedStore :=
  events.foldl (fun store event => store.perform event.1 event.2) store

end LoggedStore

-----------------------------------------------------------------------------------------
-- The accesses an event consists of
-----------------------------------------------------------------------------------------

/-- A single access to the store or its log: the execution of a command that a line of text
asked for, the turn of the sweeper for one key, or a round of the flush thread.
-/
inductive Access where
  | execute (refusals : Refusals) (command : ICommand) (wellFormed : command.WellFormed)
  | sweep (key : Bytes)
  | flushRound

namespace LoggedStore

def access (now : Int) (access : Access) (store : LoggedStore) : LoggedStore :=
  match access with
  | .execute refusals command _ =>
      let done := command.execute refusals now store.router store.aof
      ⟨done.router, done.aof⟩
  | .sweep key =>
      let (router, aof) := TimingWheel.sweepEntry now key store.router store.aof
      ⟨router, aof⟩
  | .flushRound => { store with aof := store.aof.flushRound }

def accessAll (accesses : List (Int × Access)) (store : LoggedStore) : LoggedStore :=
  accesses.foldl (fun store access => store.access access.1 access.2) store

end LoggedStore

/-- Items of work together with the clock readings of their turns. -/
def timed {α : Type} : (clock : ℕ → Int) → List α → List (Int × α)
  | _, [] => []
  | clock, item :: rest => (clock 0, item) :: timed (fun turn => clock (turn + 1)) rest

/-- The accesses of an event, in their order. -/
def Event.accesses (around : Surroundings) : Event → List (Int × Access)
  | .request line =>
      match parsed : CommandFactory.parse (tokenize line) with
      | none => []
      | some command =>
          [(around.clock 0,
            .execute (around.refusals 0) command
              (CommandFactory.wellFormed_of_parse (fun _ => Delimited.isWord_of_mem_words)
                parsed))]
  | .advanceTick wheel => timed around.clock (wheel.takeBucket.1.map .sweep)
  | .flushRound => [(around.start, .flushRound)]

/-- The accesses of a run. -/
def accessesOf (events : List (Surroundings × Event)) : List (Int × Access) :=
  events.flatMap fun event => event.2.accesses event.1

namespace LoggedStore

theorem accessAll_append (front back : List (Int × Access)) (store : LoggedStore)
    : store.accessAll (front ++ back) = (store.accessAll front).accessAll back :=
  List.foldl_append

/-- The loop of a tick is one access for each key it takes, by induction on the keys. -/
theorem accessAll_timed_sweep (clock : ℕ → Int) (keys : List Bytes) (store : LoggedStore)
    : store.accessAll (timed clock (keys.map .sweep))
      = ⟨(TimingWheel.sweepEntries clock keys store.router store.aof).1,
          (TimingWheel.sweepEntries clock keys store.router store.aof).2⟩ := by
  induction keys generalizing clock store with
  | nil => rfl
  | cons key rest ih => exact ih _ _

/-- An event is its accesses one after the other. -/
theorem perform_eq (around : Surroundings) (event : Event) (store : LoggedStore)
    : store.perform around event = store.accessAll (event.accesses around) := by
  cases event with
  | request line =>
      dsimp only [perform, Event.accesses]
      split <;> split <;> simp_all [accessAll, access]
  | advanceTick wheel => exact (accessAll_timed_sweep _ _ _).symm
  | flushRound => rfl

/-- A run is the accesses of its events one after the other, by induction on the run. -/
theorem performAll_eq (events : List (Surroundings × Event)) (store : LoggedStore)
    : store.performAll events = store.accessAll (accessesOf events) := by
  induction events generalizing store with
  | nil => rfl
  | cons event rest ih =>
      change (store.perform event.1 event.2).performAll rest = _
      rw [ih, perform_eq, ← accessAll_append]
      rfl

end LoggedStore

-----------------------------------------------------------------------------------------
-- The times of accesses
-----------------------------------------------------------------------------------------

theorem mem_of_mem_timed {α : Type} {clock : ℕ → Int} {items : List α} {entry : Int × α}
    (member : entry ∈ timed clock items)
    : (∃ turn, entry.1 = clock turn) ∧ entry.2 ∈ items := by
  induction items generalizing clock with
  | nil => cases member
  | cons item rest ih =>
      rcases List.mem_cons.mp member with rfl | later
      · exact ⟨⟨0, rfl⟩, by simp⟩
      · obtain ⟨⟨turn, same⟩, among⟩ := ih later
        exact ⟨⟨turn + 1, same⟩, List.mem_cons_of_mem _ among⟩

/-- Readings of a monotone clock are in order, by induction on the turns. -/
theorem timed_sorted {α : Type} {clock : ℕ → Int} (monotone : Monotone clock)
    (items : List α)
    : (timed clock items).Pairwise fun earlier later => earlier.1 ≤ later.1 := by
  induction items generalizing clock with
  | nil => exact .nil
  | cons item rest ih =>
      refine List.pairwise_cons.mpr ⟨?_, ih fun _ _ order => monotone (Nat.succ_le_succ order)⟩
      intro entry member
      obtain ⟨⟨turn, same⟩, -⟩ := mem_of_mem_timed member
      rw [same]
      exact monotone (Nat.zero_le _)

/-- The accesses of an event follow one another within its span. -/
theorem Event.accesses_sorted (around : Surroundings) (event : Event)
    : (event.accesses around).Pairwise (fun earlier later => earlier.1 ≤ later.1)
      ∧ ∀ access ∈ event.accesses around, around.start ≤ access.1 ∧ access.1 ≤ around.finish := by
  have ordered : around.start ≤ around.finish :=
    (around.within 0).1.trans (around.within 0).2
  cases event with
  | request line =>
      dsimp only [accesses]
      split
      · simp
      · simpa using around.within 0
  | advanceTick wheel =>
      refine ⟨timed_sorted around.monotone _, ?_⟩
      intro access member
      obtain ⟨⟨turn, same⟩, -⟩ := mem_of_mem_timed member
      rw [same]
      exact around.within turn
  | flushRound => simpa [accesses] using ordered

/-- With room for everything the commands of a run are refused nothing. -/
theorem refusals_of_roomy {events : List (Surroundings × Event)}
    (roomy : ∀ event ∈ events, event.1.Roomy) {now : Int} {refusals : Refusals}
    {command : ICommand} {wellFormed : command.WellFormed}
    (member : (now, .execute refusals command wellFormed) ∈ accessesOf events)
    : refusals = .none := by
  obtain ⟨⟨around, event⟩, among, part⟩ := List.mem_flatMap.mp member
  cases event with
  | request line =>
      dsimp only [Event.accesses] at part
      split at part
      · cases part
      · obtain ⟨-, same⟩ := Prod.mk.inj (List.mem_singleton.mp part)
        obtain ⟨rfl, -⟩ := Access.execute.inj same
        exact roomy _ among 0
  | advanceTick wheel =>
      obtain ⟨-, same⟩ := mem_of_mem_timed part
      simp at same
  | flushRound => simp [Event.accesses] at part

/-- The accesses of events in order are in order. -/
theorem accessesOf_sorted {events : List (Surroundings × Event)} (ordered : InOrder events)
    : (accessesOf events).Pairwise fun earlier later => earlier.1 ≤ later.1 := by
  refine List.pairwise_flatMap.mpr ⟨fun event _ => (event.2.accesses_sorted event.1).1, ?_⟩
  refine List.Pairwise.imp ?_ ordered
  intro first second order earlier member later member'
  have finished := ((first.2.accesses_sorted first.1).2 earlier member).2
  have started := ((second.2.accesses_sorted second.1).2 later member').1
  omega


/-- The accesses of a run lie before any time that is after its events. -/
theorem accessesOf_within {events : List (Surroundings × Event)} {limit : Int}
    (done : ∀ event ∈ events, event.1.finish ≤ limit)
    : ∃ start ≤ limit, ∀ access ∈ accessesOf events, start ≤ access.1 ∧ access.1 ≤ limit := by
  obtain ⟨start, below⟩ :=
    (List.finite_toSet (limit :: (accessesOf events).map Prod.fst)).bddBelow
  refine ⟨start, below (by simp), ?_⟩
  intro access member
  refine ⟨below (List.mem_cons_of_mem _ (List.mem_map_of_mem member)), ?_⟩
  obtain ⟨event, among, part⟩ := List.mem_flatMap.mp member
  exact ((event.2.accesses_sorted event.1).2 access part).2.trans (done event among)

-----------------------------------------------------------------------------------------
-- What one access does
-----------------------------------------------------------------------------------------

/-- A command has been executed with memory for it: its own key has changed by its effect,
and the log has it as one more record if the effect says so.
-/
structure LoggedStore.Executed (now : Int) (command : ICommand) (before after : LoggedStore)
    : Prop where
  entry
    : ∀ key,
        after.router.entry key
          = if command.key? = some key then (command.effect now (before.router.entry key)).entry
            else before.router.entry key
  ready : after.aof.Ready
  content
    : after.aof.content
      = before.aof.content
        ++ encodeLines
            (if (command.effect now (command.entryIn before.router)).logged then
              [command.serialize]
            else [])

/-- A key has been swept: its entry is gone unless it is live, and the log has a `DEL` for it
if there was one to remove.
-/
structure LoggedStore.Swept (now : Int) (key : Bytes) (before after : LoggedStore) : Prop where
  entry
    : ∀ other,
        after.router.entry other
          = if other = key then liveEntry now (before.router.entry key)
            else before.router.entry other
  ready : after.aof.Ready
  content
    : after.aof.content
      = before.aof.content
        ++ encodeLines
            (if (before.router.entry key).any fun value => !value.isLive now then
              [(ICommand.del key).serialize]
            else [])

namespace LoggedStore

theorem executed_of_roomy {store : LoggedStore} (ready : store.aof.Ready) (now : Int)
    {command : ICommand} (wellFormed : command.WellFormed)
    : store.Executed now command (store.access now (.execute .none command wellFormed)) := by
  have done := command.realizes store.router store.aof now
  constructor
  · intro key
    apply (done.entry key).trans
    split
    · rename_i own
      rw [ICommand.entryIn, own, Option.bind_some]
    · rfl
  · change AofLogger.Ready (ICommand.execute ..).aof
    rw [done.aof]
    split
    · exact ready.log _
    · exact ready
  · change AofLogger.content (ICommand.execute ..).aof = _
    rw [done.aof]
    split
    · exact AofLogger.content_log ready _
    · simp [encodeLines]

/-- A command is executed with memory for it, or it changes nothing at all. -/
theorem executed_or_refused {store : LoggedStore} (ready : store.aof.Ready)
    (refusals : Refusals) (now : Int) {command : ICommand} (wellFormed : command.WellFormed)
    : store.Executed now command (store.access now (.execute refusals command wellFormed))
      ∨ store.access now (.execute refusals command wellFormed) = store := by
  rcases command.execute_none_or_refused refusals now store.router store.aof with
    same | ⟨-, refused⟩
  · left
    have full := executed_of_roomy ready now wellFormed
    unfold access at full ⊢
    dsimp only at full ⊢
    rw [same]
    exact full
  · right
    dsimp only [access]
    rw [refused]

theorem swept {store : LoggedStore} (ready : store.aof.Ready) (now : Int) (key : Bytes)
    : store.Swept now key (store.access now (.sweep key)) := by
  constructor
  · exact fun other => store.router.entry_evictExpired now key other
  · dsimp only [access, TimingWheel.sweepEntry]
    split
    · exact ready.log _
    · exact ready
  · dsimp only [access, TimingWheel.sweepEntry]
    rw [ShardRouter.evictExpired_fst]
    split
    · exact AofLogger.content_log ready _
    · simp [encodeLines]

end LoggedStore

end InMemoryDB
