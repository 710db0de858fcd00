import InMemoryDB.Network.ProgramOrder
import InMemoryDB.Persistence.Restoration

/-! What may happen to a live entry while no client replaces or deletes it: containers grow, and its
type and its lifetime stay.
-/

namespace InMemoryDB

/-- A text stays as it is. A list only gets longer at its end, and a hash never loses a field. -/
inductive ValueVariant.Grows : ValueVariant → ValueVariant → Prop
  | string (text : Bytes) : Grows (.string text) (.string text)
  | integer (number : Int) : Grows (.integer number) (.integer number)
  | list {items later : List Bytes} (longer : items <+: later) : Grows (.list items) (.list later)
  | hash {fields later : Finmap fun _ : Bytes => Bytes} (kept : ∀ field ∈ fields, field ∈ later)
    : Grows (.hash fields) (.hash later)

/-- The entry was made when the other one was, dies when it does, and its value has grown. -/
structure CacheAlignedValue.Extends (later earlier : CacheAlignedValue) : Prop where
  createdAt : later.createdAt = earlier.createdAt
  ttlSeconds : later.ttlSeconds = earlier.ttlSeconds
  tombstoned : later.tombstoned = earlier.tombstoned
  data : earlier.data.Grows later.data

namespace ValueVariant.Grows

variable {first second third : ValueVariant}

theorem refl (data : ValueVariant) : data.Grows data := by
  cases data with
  | string text => exact .string text
  | integer number => exact .integer number
  | list items => exact .list (List.prefix_refl items)
  | hash fields => exact .hash fun field member => member

theorem trans (grows : first.Grows second) (more : second.Grows third) : first.Grows third := by
  cases grows with
  | string | integer => exact more
  | list longer =>
      cases more with
      | list further => exact .list (longer.trans further)
  | hash kept =>
      cases more with
      | hash further => exact .hash fun field member => further field (kept field member)

end ValueVariant.Grows

namespace CacheAlignedValue.Extends

variable {first second third : CacheAlignedValue} {now : Int}

theorem refl (value : CacheAlignedValue) : value.Extends value :=
  ⟨rfl, rfl, rfl, .refl value.data⟩

theorem trans (extended : second.Extends first) (more : third.Extends second)
    : third.Extends first where
  createdAt := more.createdAt.trans extended.createdAt
  ttlSeconds := more.ttlSeconds.trans extended.ttlSeconds
  tombstoned := more.tombstoned.trans extended.tombstoned
  data := extended.data.trans more.data

/-- They are live at the same times. -/
theorem isLive (extended : second.Extends first) : second.isLive now = first.isLive now := by
  unfold CacheAlignedValue.isLive CacheAlignedValue.isExpired
  rw [extended.createdAt, extended.ttlSeconds, extended.tombstoned]

end CacheAlignedValue.Extends

/-- What is live at a time was live before. -/
theorem isLive_of_le {value : CacheAlignedValue} {now later : Int} (order : now ≤ later)
    (live : value.isLive later = true)
    : value.isLive now = true := by
  simp only [CacheAlignedValue.isLive, Bool.and_eq_true, Bool.not_eq_true'] at live ⊢
  refine ⟨live.1, Bool.eq_false_iff.mpr fun expired => ?_⟩
  rw [CacheAlignedValue.isExpired_mono order expired] at live
  exact absurd live.2 (by decide)

/-- The command makes the key anew, or ends it. -/
def ICommand.Replaces (key : Bytes) : ICommand → Prop
  | .set other _ _ | .del other => other = key
  | _ => False

instance (key : Bytes) : (command : ICommand) → Decidable (command.Replaces key)
  | .set other _ _ | .del other => inferInstanceAs (Decidable (other = key))
  | .get _ | .exists _ | .ping | .lpush .. | .lrange .. | .hset .. | .hget .. =>
      inferInstanceAs (Decidable False)

/-- Any other command extends a live entry, by cases on the command. -/
theorem ICommand.extends_effect {now : Int} {found : CacheAlignedValue} {key : Bytes}
    (live : found.isLive now = true) {command : ICommand} (own : command.key? = some key)
    (spared : ¬ command.Replaces key)
    : ∃ later,
        (command.effect now (some found)).entry = some later ∧ later.Extends found := by
  have here : liveEntry now (some found) = some found := by rw [liveEntry_some, if_pos live]
  cases command with
  | set | del => exact absurd (Option.some.inj own) spared
  | ping => cases own
  | get | «exists» => exact ⟨found, by simp [effect, here], .refl found⟩
  | lrange other start stop =>
      obtain ⟨reply, same⟩ := @effect_of_read (.lrange other start stop) rfl now (some found)
      exact ⟨found, by rw [same], .refl found⟩
  | hget other field =>
      obtain ⟨reply, same⟩ := @effect_of_read (.hget other field) rfl now (some found)
      exact ⟨found, by rw [same], .refl found⟩
  | lpush other value ttl =>
      simp only [effect, here]
      cases kind : found.data with
      | list items =>
          refine ⟨_, rfl, rfl, rfl, rfl, ?_⟩
          rw [kind]
          exact .list (List.prefix_append items [value])
      | string | integer | hash => exact ⟨found, rfl, .refl found⟩
  | hset other field value ttl =>
      simp only [effect, here]
      cases kind : found.data with
      | hash fields =>
          refine ⟨_, rfl, rfl, rfl, rfl, ?_⟩
          rw [kind]
          exact .hash fun name member => Finmap.mem_insert.mpr (.inr member)
      | string | integer | list => exact ⟨found, rfl, .refl found⟩

namespace Server

/-- The turn executes a command that makes the key anew, or ends it. -/
def Replaces (key : Bytes) (server : Server) (action : Action) : Prop :=
  ∃ task ∈ server.executing action, task.command.Replaces key

instance (key : Bytes) (server : Server) (action : Action)
    : Decidable (server.Replaces key action) :=
  inferInstanceAs (Decidable (∃ task ∈ server.executing action, _))

variable {server next : Server} {action : Action} {key : Bytes}
  {found : CacheAlignedValue}

theorem clock_le_of_step (taken : server.step action = some next) : server.clock ≤ next.clock := by
  cases takes_of_step taken with
  | execute _ _ advances => exact advances
  | sweep advances => exact advances
  | readLine =>
      unfold Server.readLine
      split <;> exact le_rfl
  | deliver =>
      unfold Server.deliver
      split <;> exact le_rfl
  | accepted | rejected | received | disconnected | process | written | drain | drained | unpause
  | pop | post => exact le_rfl

/-- A turn extends an entry that is live behind it, by cases on the turn. -/
theorem extends_step (taken : server.step action = some next)
    (present : server.store.router.entry key = some found)
    (live : found.isLive next.clock = true) (spared : ¬ server.Replaces key action)
    : ∃ later, next.store.router.entry key = some later ∧ later.Extends found := by
  have untouched (same : next.store = server.store)
      : ∃ later, next.store.router.entry key = some later ∧ later.Extends found :=
    ⟨found, same ▸ present, .refl found⟩
  cases takes_of_step taken with
  | execute =>
      obtain ⟨front, busy, back, -, -, runs, -, same⟩ := execute_of_step taken
      rw [same] at live ⊢
      obtain ⟨own, others⟩ :=
        busy.task.command.entry_execute _ _ server.store.router server.store.aof key
      by_cases mine : busy.task.command.key? = some key
      · have kept : ¬ busy.task.command.Replaces key :=
          fun replaces => spared ⟨busy.task, runs, replaces⟩
        rcases own mine with changed | ⟨-, -, same⟩
        · rw [present] at changed
          obtain ⟨later, made, extended⟩ := ICommand.extends_effect live mine kept
          exact ⟨later, changed.trans made, extended⟩
        · exact ⟨found, same.trans present, .refl found⟩
      · exact ⟨found, (others mine).trans present, .refl found⟩
  | @sweep now other advances =>
      refine ⟨found, ?_, .refl found⟩
      refine (server.store.router.entry_evictExpired now other key).trans ?_
      split
      · rename_i same
        rw [← same, present]
        exact if_pos live
      · exact present
  | readLine =>
      refine untouched ?_
      unfold Server.readLine
      split <;> rfl
  | deliver =>
      refine untouched ?_
      unfold Server.deliver
      split <;> rfl
  | accepted | rejected | received | disconnected | process | written | drain | drained | unpause
  | pop | post => exact untouched (by rfl)

/-- Whatever the threads do, a live entry that no client replaces or deletes stays until it
expires: with its type, its age and its time to live, all items of a list in their places, and all
fields of a hash. By induction on the run.
-/
theorem entry_grows {opening : Server} {steps : List (Server × Action)}
    (run : TransitionSystem.Run step opening steps server)
    (spared : TransitionSystem.Along (fun server action => ¬ server.Replaces key action) steps)
    (present : opening.store.router.entry key = some found)
    (live : found.isLive server.clock = true)
    : ∃ later, server.store.router.entry key = some later ∧ later.Extends found := by
  induction run with
  | nil => exact ⟨found, present, .refl found⟩
  | @snoc steps middle action final _ taken ih =>
      obtain ⟨before, last⟩ := TransitionSystem.along_snoc.mp spared
      have lives := isLive_of_le (clock_le_of_step taken) live
      obtain ⟨earlier, there, extended⟩ := ih before lives
      have still : earlier.isLive final.clock = true := by rw [extended.isLive, live]
      obtain ⟨later, here, more⟩ := extends_step taken there still last
      exact ⟨later, here, extended.trans more⟩

/-- A list that two clients push to while the sweeper comes by and another key is replaced. -/
def pushes : List Action :=
  [.accept 5 [], .accept 6 [], .recv 5 (some (ascii "LPUSH l b\nSET k v\n")), .readLine, .process,
    .readLine, .process, .readLine, .recv 6 (some (ascii "LPUSH l c\n")), .readLine, .process,
    .readLine, .pop 0, .pop 1, .execute 1 5 .none, .execute 0 6 .none, .sweep 7 (ascii "l"),
    .post 0, .pop 0, .execute 0 8 .none]

def oneItem : CacheAlignedValue := .new (.list [ascii "a"]) 60 0

def pushedOnce : LoggedStore :=
  ⟨(LoggedStore.empty 1024 0).router.putShard (ascii "l")
    ⟨1024, Finmap.singleton (ascii "l") oneItem⟩, {}⟩

theorem entry_grows_pushes
    : ∃ steps server later,
        TransitionSystem.Run step (startWith 2 8 pushedOnce 0) steps server
        ∧ server.store.router.entry (ascii "l")
          = some { oneItem with data := .list [ascii "a", ascii "b", ascii "c"] }
        ∧ server.store.router.entry (ascii "l") = some later
        ∧ later.Extends oneItem := by
  have traced
      : TransitionSystem.trace step (startWith 2 8 pushedOnce 0) pushes = some _ := rfl
  have run := TransitionSystem.run_of_trace traced
  obtain ⟨later, there, extended⟩ :=
    @entry_grows _ (ascii "l") oneItem _ _ run (by decide +kernel) (by decide +kernel)
      (by decide +kernel)
  exact ⟨_, _, later, run, rfl, there, extended⟩

end Server

end InMemoryDB
