import InMemoryDB.Persistence.LoggedStore

/-! What a replay can leave under one key depends on that key's records alone: the entry is
built from them in their order, at times from the start of the replay on.
-/

namespace InMemoryDB

/-- The records of a log that name a key. -/
def recordsOf (key : Bytes) (records : List ICommand) : List ICommand :=
  records.filter fun record => record.key? = some key

theorem recordsOf_append (key : Bytes) (front back : List ICommand)
    : recordsOf key (front ++ back) = recordsOf key front ++ recordsOf key back :=
  List.filter_append ..

theorem recordsOf_own {key : Bytes} {record : ICommand} (own : record.key? = some key)
    : recordsOf key [record] = [record] := by
  simp [recordsOf, own]

theorem recordsOf_other {key : Bytes} {record : ICommand} (other : record.key? ≠ some key)
    : recordsOf key [record] = [] := by
  simp [recordsOf, other]

/-- An entry that a replay beginning at `since` can have left under the key of the records
by `now`. Where the arenas may refuse, a record can also be passed over.
-/
inductive Restores (refusing : Prop) (since : Int)
    : List ICommand → Int → Option CacheAlignedValue → Prop
  | nil : Restores refusing since [] since none
  | later {records before now entry} (earlier : Restores refusing since records before entry)
    (order : before ≤ now)
    : Restores refusing since records now entry
  | record {records now entry} (earlier : Restores refusing since records now entry)
    (command : ICommand)
    : Restores refusing since (records ++ [command]) now (command.effect now entry).entry
  | refused {records now entry} (earlier : Restores refusing since records now entry)
    (command : ICommand) (refuses : refusing) (asks : command.asksMemory = true)
    : Restores refusing since (records ++ [command]) now entry

namespace Restores

variable {refusing : Prop} {since now : Int} {records : List ICommand}
  {entry : Option CacheAlignedValue}

theorem since_le (restored : Restores refusing since records now entry) : since ≤ now := by
  induction restored with
  | nil => exact le_rfl
  | later _ order ih => exact ih.trans order
  | record _ _ ih => exact ih
  | refused _ _ _ _ ih => exact ih

/-- A replay that begins later also begins from any earlier time on. -/
theorem since_mono {before : Int} (restored : Restores refusing since records now entry)
    (order : before ≤ since)
    : Restores refusing before records now entry := by
  induction restored with
  | nil => exact .later .nil order
  | later _ later ih => exact .later ih later
  | record _ command ih => exact .record ih command
  | refused _ command refuses asks ih => exact .refused ih command refuses asks

/-- A restored entry was created during the replay. -/
theorem createdAt (restored : Restores refusing since records now entry)
    : ∀ value, entry = some value → since ≤ value.createdAt ∧ value.createdAt ≤ now := by
  induction restored with
  | nil => rintro value ⟨⟩
  | later _ order ih =>
      intro value found
      exact ⟨(ih value found).1, (ih value found).2.trans order⟩
  | record earlier command ih =>
      intro value left
      rcases ICommand.createdAt_effect left with fresh | ⟨before, present, same⟩
      · rw [fresh]
        exact ⟨earlier.since_le, le_rfl⟩
      · rw [same]
        exact ih before present
  | refused _ _ _ _ ih => exact ih

/-- Where the arenas have room for everything, nothing is passed over. -/
theorem of_roomy (restored : Restores refusing since records now entry)
    (roomy : ¬ refusing)
    : Restores False since records now entry := by
  induction restored with
  | nil => exact .nil
  | later _ order ih => exact .later ih order
  | record _ command ih => exact .record ih command
  | refused _ _ refuses _ => exact absurd refuses roomy

/-- Without records there is no entry. -/
theorem eq_none (restored : Restores refusing since [] now entry) : entry = none := by
  generalize empty : ([] : List ICommand) = records at restored
  induction restored with
  | nil => rfl
  | later _ _ ih => exact ih empty
  | record | refused => simp at empty

/-- The last record was applied at some time, or it was refused; by induction on the
waiting behind it.
-/
theorem last {command : ICommand}
    (restored : Restores refusing since (records ++ [command]) now entry)
    : ∃ time earlier,
        time ≤ now
        ∧ Restores refusing since records time earlier
        ∧ (entry = (command.effect time earlier).entry
          ∨ refusing ∧ command.asksMemory = true ∧ entry = earlier) := by
  generalize whole : records ++ [command] = all at restored
  induction restored with
  | nil => simp at whole
  | later _ order ih =>
      obtain ⟨time, earlier, before, restored, made⟩ := ih whole
      exact ⟨time, earlier, before.trans order, restored, made⟩
  | record earlier =>
      obtain ⟨rfl, same⟩ := List.append_inj' whole rfl
      obtain rfl := List.singleton_inj.mp same
      exact ⟨_, _, le_rfl, earlier, .inl rfl⟩
  | refused earlier _ refuses asks =>
      obtain ⟨rfl, same⟩ := List.append_inj' whole rfl
      obtain rfl := List.singleton_inj.mp same
      exact ⟨_, _, le_rfl, earlier, .inr ⟨refuses, asks, rfl⟩⟩

end Restores

-----------------------------------------------------------------------------------------
-- The replay loop restores every key
-----------------------------------------------------------------------------------------

/-- The execution of any command, seen from a key: its own entry changes by the effect of the
command or by nothing if it is refused; that of another key stays.
-/
theorem ICommand.entry_execute (command : ICommand) (refusals : Refusals) (now : Int)
    (router : ShardRouter) (aof : AofLogger) (key : Bytes)
    : (command.key? = some key
        → (command.execute refusals now router aof).router.entry key
            = (command.effect now (router.entry key)).entry
          ∨ refusals ≠ .none
            ∧ command.asksMemory = true
            ∧ (command.execute refusals now router aof).router.entry key = router.entry key)
      ∧ (command.key? ≠ some key
        → (command.execute refusals now router aof).router.entry key = router.entry key) := by
  have done := command.realizes router aof now
  have frame := done.entry key
  rcases command.execute_none_or_refused refusals now router aof with same | ⟨asks, refused⟩
  · rw [same, frame]
    refine ⟨fun own => .inl ?_, fun other => by rw [if_neg other]⟩
    rw [if_pos own, ICommand.entryIn, own, Option.bind_some]
  · by_cases roomy : refusals = .none
    · subst roomy
      rw [frame]
      refine ⟨fun own => .inl ?_, fun other => by rw [if_neg other]⟩
      rw [if_pos own, ICommand.entryIn, own, Option.bind_some]
    · rw [refused]
      exact ⟨fun _ => .inr ⟨roomy, asks, rfl⟩, fun _ => rfl⟩

/-- While a log is replayed, no command adds to it. -/
theorem ICommand.aof_execute_of_replaying {aof : AofLogger}
    (replaying : aof.isReplaying = true) (refusals : Refusals) (now : Int)
    (command : ICommand) (router : ShardRouter)
    : (command.execute refusals now router aof).aof = aof := by
  rcases command.execute_none_or_refused refusals now router aof with same | ⟨asks, refused⟩
  · rw [same, (command.realizes router aof now).aof,
      AofLogger.logUnlessReplaying_of_replaying replaying, ite_self]
  · rw [refused]

namespace ServerBuilder

/-- While it is replayed, the log stays as it is; by induction on the lines. -/
theorem replayLines_aof {aof : AofLogger} (replaying : aof.isReplaying = true)
    (clock : ℕ → Int) (refusals : ℕ → Refusals) (lines : List Bytes) (router : ShardRouter)
    : (replayLines clock refusals lines router aof).2 = aof := by
  induction lines generalizing clock refusals router with
  | nil => rfl
  | cons line rest ih =>
      have unlogged : (replayLine (refusals 0) (clock 0) line router aof).2 = aof := by
        unfold replayLine
        split
        · rfl
        · split
          · rfl
          · exact ICommand.aof_execute_of_replaying replaying _ _ _ _
      simp only [replayLines]
      rw [unlogged]
      exact ih _ _ _

/-- A replay into a fresh store restores every key from that key's records, at the clock's
readings; by induction on the log from its end.
-/
theorem restores_replayLines {clock : ℕ → Int} (monotone : Monotone clock)
    (refusals : ℕ → Refusals) (totalMemory exponent : ℕ) {aof : AofLogger}
    (replaying : aof.isReplaying = true) {records : List ICommand}
    (wellFormed : ∀ record ∈ records, record.WellFormed) {since : Int}
    (start : since ≤ clock 0) (key : Bytes)
    : Restores (∃ turn, refusals turn ≠ .none) since (recordsOf key records)
        (clock records.length)
        ((replayLines clock refusals (records.map ICommand.serialize)
          (.construct totalMemory exponent) aof).1.entry key) := by
  induction records using List.reverseRecOn with
  | nil =>
      simp only [replayLines, List.map_nil, ShardRouter.entry_construct]
      exact .later .nil (start.trans (monotone (Nat.zero_le _)))
  | append_singleton front command ih =>
      obtain ⟨others, here⟩ := List.forall_mem_append.mp wellFormed
      have earlier := ih others
      have mine := here command (by simp)
      rw [List.map_append, replayLines_append, replayLines_aof replaying, recordsOf_append]
      simp only [List.map_cons, List.map_nil, replayLines, List.length_map, Nat.add_zero,
        replayLine_serialize mine, List.length_append, List.length_singleton]
      obtain ⟨changed, kept⟩ := command.entry_execute (refusals front.length)
        (clock front.length)
        (replayLines clock refusals (front.map ICommand.serialize)
          (.construct totalMemory exponent) aof).1
        aof key
      have order : clock front.length ≤ clock (front.length + 1) := monotone (Nat.le_succ _)
      by_cases own : command.key? = some key
      · rw [recordsOf_own own]
        rcases changed own with made | ⟨refuses, asks, same⟩
        · rw [made]
          exact .later (.record earlier command) order
        · rw [same]
          exact .later (.refused earlier command ⟨_, refuses⟩ asks) order
      · rw [recordsOf_other own, List.append_nil, kept own]
        exact .later earlier order

/-- A started server holds what the records of its log file restore. -/
theorem restores_boot {clock : ℕ → Int} (monotone : Monotone clock) (refusals : ℕ → Refusals)
    (totalMemory exponent : ℕ) {records : List ICommand}
    (wellFormed : ∀ record ∈ records, record.WellFormed) {since : Int}
    (start : since ≤ clock 0) (key : Bytes)
    : Restores (∃ turn, refusals turn ≠ .none) since (recordsOf key records)
        (clock records.length)
        ((boot clock refusals totalMemory exponent
          (encodeLines (records.map ICommand.serialize))).1.entry key) := by
  simp only [boot, replay, AofLogger.setReplaying, getlines_serialized wellFormed]
  exact restores_replayLines monotone refusals totalMemory exponent rfl wellFormed start key

/-- The log of a started server is its file. -/
theorem aof_boot (clock : ℕ → Int) (refusals : ℕ → Refusals) (totalMemory exponent : ℕ)
    (file : Bytes)
    : (boot clock refusals totalMemory exponent file).2 = { file := file, running := true } := by
  simp only [boot, replay, AofLogger.setReplaying]
  rw [replayLines_aof rfl]
  rfl

end ServerBuilder

end InMemoryDB
