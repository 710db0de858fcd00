import InMemoryDB.Core.Effect

/-! What commands leave alone: a write that fails leaves everything as it is, and clients with
keys of their own cannot tell that there are others.
-/

namespace InMemoryDB

-----------------------------------------------------------------------------------------
-- The place that a command changes
-----------------------------------------------------------------------------------------

theorem LPushCommand.changedAt (now : Int) (key value : Bytes) (ttl : Int) (shard : Shard)
    : shard.ChangedAt key (shard.guardedWrite .none (tryPush .none now key value ttl)).2 := by
  rw [guardedWrite_none]
  cases shard.findLive now key with
  | none => exact .insert key _ shard
  | some entry =>
      dsimp only
      cases entry.data with
      | list items => exact .insert key _ shard
      | string _ | integer _ | hash _ => exact .refl key shard

theorem HSetCommand.changedAt (now : Int) (key field value : Bytes) (ttl : Int) (shard : Shard)
    : shard.ChangedAt key
        (shard.guardedWrite .none (trySet .none now key field value ttl)).2 := by
  rw [guardedWrite_none]
  cases shard.findLive now key with
  | none => exact .insert key _ shard
  | some entry =>
      dsimp only
      cases entry.data with
      | hash fields => exact .insert key _ shard
      | string _ | integer _ | list _ => exact .refl key shard

theorem DelCommand.changedAt (key : Bytes) (shard : Shard)
    : shard.ChangedAt key (shard.del key).2 := by
  unfold Shard.del
  split
  · exact .refl key shard
  · split
    · exact .refl key shard
    · exact .insert key _ shard

/-- A command changes at most the entry of its key, where that has its place; by cases on the
command.
-/
theorem ICommand.changedAt (command : ICommand) (refusals : Refusals) (now : Int)
    (router : ShardRouter) (aof : AofLogger)
    : router.ChangedAt (command.key? = some ·)
        (command.execute refusals now router aof).router := by
  rcases command.execute_none_or_refused refusals now router aof with same | ⟨-, refused⟩
  · rw [same]
    cases command with
    | set key value ttl => exact .putShard (.insert key _ _)
    | get key =>
        simp only [execute, GetCommand.execute]
        split <;> exact .refl _ router
    | del key => exact .putShard (DelCommand.changedAt key _)
    | «exists» | ping => exact .refl _ router
    | lpush key value ttl => exact .putShard (LPushCommand.changedAt now key value ttl _)
    | lrange key start stop =>
        simp only [execute, LRangeCommand.execute]
        split
        · exact .refl _ router
        · split <;> exact .refl _ router
    | hset key field value ttl =>
        exact .putShard (HSetCommand.changedAt now key field value ttl _)
    | hget key field =>
        simp only [execute, HGetCommand.execute]
        split
        · exact .refl _ router
        · split
          · split <;> exact .refl _ router
          · exact .refl _ router
  · rw [refused]
    exact .refl _ router

-----------------------------------------------------------------------------------------
-- Writes that fail
-----------------------------------------------------------------------------------------

/-- The reply is one of the two errors that a write can get. -/
def IsWriteError (reply : Bytes) : Prop := reply = oomReply ∨ reply = wrongTypeReply

instance (reply : Bytes) : Decidable (IsWriteError reply) :=
  inferInstanceAs (Decidable (_ ∨ _))

/-- An integer is told from an error by its first letter. -/
theorem not_isWriteError_integerReply (number : Int) : ¬ IsWriteError (integerReply number) := by
  have first : (integerReply number).head? = some 58 := rfl
  intro failed
  rcases failed with same | same
  · rw [same] at first
    exact absurd first (by decide)
  · rw [same] at first
    exact absurd first (by decide)

namespace ICommand

variable {command : ICommand} {now : Int} {router : ShardRouter} {aof : AofLogger}

/-- The effect of a command that replies with an error is no change and no record. -/
theorem effect_of_error {entry : Option CacheAlignedValue}
    (failed : IsWriteError (command.effect now entry).reply)
    : (command.effect now entry).logged = false := by
  have acts := command.acts now entry
  generalize command.effect now entry = effect at acts failed
  cases acts with
  | kept => rfl
  | written => exact absurd (show IsWriteError okReply from failed) (by decide)
  | deleted | made | added => exact absurd failed (not_isWriteError_integerReply _)

/-- Wherever the arena refuses memory, a command that replies with an error has changed
nothing and is not logged.
-/
theorem unchanged_of_error (refusals : Refusals)
    (failed : IsWriteError (command.execute refusals now router aof).reply)
    : (command.execute refusals now router aof).router = router
      ∧ (command.execute refusals now router aof).aof = aof := by
  have changed := command.changedAt refusals now router aof
  rcases command.execute_none_or_refused refusals now router aof with same | ⟨-, refused⟩
  · rw [same] at failed changed ⊢
    have done := command.realizes router aof now
    rw [done.reply] at failed
    have silent := effect_of_error failed
    refine ⟨changed.eq_of_entry (.refl (fun _ => False) router) fun key => ?_, ?_⟩
    · rw [done.entry, effect_of_unlogged silent]
      split
      · rename_i own
        rw [entryIn, own, Option.bind_some]
      · rfl
    · rw [done.aof, silent]
      rfl
  · rw [refused]
    exact ⟨rfl, rfl⟩

/-- The arena refuses the node of a new field after it has given memory for the field and for
the value; and a list is pushed to a key that holds a string.
-/
theorem unchanged_of_error_hset
    : let before := SetCommand.execute .none 0 (ascii "k") (ascii "v") 10 (.construct 1024 0) {}
      let refused :=
        (ICommand.hset (ascii "h") (ascii "f") (ascii "v") 10).execute
          (fun point => point = .fieldNode) 0 before.router before.aof
      let wrongType :=
        (ICommand.lpush (ascii "k") (ascii "x") 10).execute .none 0 before.router before.aof
      (refused.reply = oomReply ∧ refused.router = before.router ∧ refused.aof = before.aof)
      ∧ wrongType.reply = wrongTypeReply
      ∧ wrongType.router = before.router
      ∧ wrongType.aof = before.aof :=
  ⟨⟨rfl, unchanged_of_error (fun point => point = .fieldNode) (.inl rfl)⟩, rfl,
    unchanged_of_error .none (.inr rfl)⟩

end ICommand

-----------------------------------------------------------------------------------------
-- Clients with keys of their own
-----------------------------------------------------------------------------------------

section Clients

variable {Client : Type} [DecidableEq Client]

/-- What belongs to one client, in its order. -/
def ofClient {α : Type} (client : Client) (entries : List (Client × α)) : List α :=
  entries.filterMap fun entry => if entry.1 = client then some entry.2 else none

theorem ofClient_cons_self {α : Type} (client : Client) (item : α)
    (rest : List (Client × α))
    : ofClient client ((client, item) :: rest) = item :: ofClient client rest := by
  simp [ofClient]

theorem ofClient_cons_of_ne {α : Type} {client other : Client} (different : other ≠ client)
    (item : α) (rest : List (Client × α))
    : ofClient client ((other, item) :: rest) = ofClient client rest := by
  simp [ofClient, different]

theorem ofClient_append {α : Type} (client : Client) (front back : List (Client × α))
    : ofClient client (front ++ back) = ofClient client front ++ ofClient client back :=
  List.filterMap_append

/-- Nothing belongs to a client whose name does not occur. -/
theorem ofClient_eq_nil {α : Type} {client : Client} {entries : List (Client × α)}
    (others : ∀ entry ∈ entries, entry.1 ≠ client)
    : ofClient client entries = [] := by
  refine List.filterMap_eq_nil_iff.mpr fun entry member => ?_
  rw [if_neg (others entry member)]

theorem mem_ofClient {α : Type} {client : Client} {item : α} {entries : List (Client × α)}
    : item ∈ ofClient client entries ↔ (client, item) ∈ entries := by
  simp only [ofClient, List.mem_filterMap, Option.ite_none_right_eq_some, Option.some.injEq,
    Prod.exists]
  constructor
  · intro found
    obtain ⟨other, same, member, rfl, rfl⟩ := found
    exact member
  · intro member
    exact ⟨client, item, member, rfl, rfl⟩

/-- The commands of several clients one after the other, at one instant and with memory for
all; each client gets the replies to its own.
-/
def executeAll (now : Int)
    : List (Client × ICommand) → ShardRouter → AofLogger
    → List (Client × Bytes) × ShardRouter × AofLogger
  | [], router, aof => ([], router, aof)
  | (client, command) :: rest, router, aof =>
      let done := command.execute .none now router aof
      let later := executeAll now rest done.router done.aof
      ((client, done.reply) :: later.1, later.2)

/-- A client alone with the store. -/
def executeAlone (now : Int) (client : Client) (commands : List ICommand) (router : ShardRouter)
    (aof : AofLogger)
    : List (Client × Bytes) × ShardRouter × AofLogger :=
  executeAll now (commands.map fun command => (client, command)) router aof

/-- The commands of all clients, each client's in their order. -/
def Interleaves (schedule : List (Client × ICommand)) (sequences : Client → List ICommand)
    : Prop :=
  ∀ client, ofClient client schedule = sequences client

/-- No key is in the commands of two clients. -/
def DisjointKeys (sequences : Client → List ICommand) : Prop :=
  ∀ first second,
    first ≠ second
    → ∀ command ∈ sequences first,
      ∀ other ∈ sequences second,
        ∀ key, command.key? = some key → other.key? ≠ some key

omit [DecidableEq Client] in
/-- A run changes the entries of the keys of its commands at most, by induction on it. -/
theorem changedAt_executeAll (now : Int) (schedule : List (Client × ICommand))
    (router : ShardRouter) (aof : AofLogger)
    : router.ChangedAt (fun key => ∃ entry ∈ schedule, entry.2.key? = some key)
        (executeAll now schedule router aof).2.1 := by
  induction schedule generalizing router aof with
  | nil => exact .refl _ router
  | cons first rest ih =>
      apply ((first.2.changedAt .none now router aof).trans (ih _ _)).mono
      intro key touched
      rcases touched with own | ⟨entry, member, own⟩
      · exact ⟨first, by simp, own⟩
      · exact ⟨entry, List.mem_cons_of_mem _ member, own⟩

/-- Two routers agree on the keys of a client. -/
def AgreeOn (keys : Bytes → Prop) (left right : ShardRouter) : Prop :=
  ∀ key, keys key → left.entry key = right.entry key

namespace AgreeOn

variable {keys : Bytes → Prop} {left right : ShardRouter}

/-- A command on one of the keys gets the same reply from both, and they go on agreeing. -/
theorem execute (agree : AgreeOn keys left right) (now : Int) {command : ICommand}
    (own : ∀ key, command.key? = some key → keys key) (aof aof' : AofLogger)
    : (command.execute .none now left aof).reply = (command.execute .none now right aof').reply
      ∧ AgreeOn keys (command.execute .none now left aof).router
          (command.execute .none now right aof').router := by
  have done := command.realizes left aof now
  have done' := command.realizes right aof' now
  have same : command.entryIn left = command.entryIn right := by
    unfold ICommand.entryIn
    cases named : command.key? with
    | none => rfl
    | some key => exact agree key (own key named)
  constructor
  · rw [done.reply, done'.reply, same]
  · intro key mine
    rw [done.entry, done'.entry, same, agree key mine]

/-- A command on another key leaves the agreement. -/
theorem execute_other (agree : AgreeOn keys left right) (now : Int) {command : ICommand}
    (other : ∀ key, command.key? = some key → ¬ keys key) (aof : AofLogger)
    : AgreeOn keys (command.execute .none now left aof).router right := by
  intro key mine
  rw [(command.changedAt .none now left aof).entry fun named => other key named mine]
  exact agree key mine

end AgreeOn

/-- Among others with other keys a client gets the replies that it gets alone, and its keys
get the same entries; by induction on the run.
-/
theorem executeAll_eq_alone (now : Int) (client : Client) (keys : Bytes → Prop)
    {schedule : List (Client × ICommand)}
    (own
      : ∀ command,
          (client, command) ∈ schedule → ∀ key, command.key? = some key → keys key)
    (others
      : ∀ other command,
          (other, command) ∈ schedule
          → other ≠ client
          → ∀ key, command.key? = some key → ¬ keys key)
    {left right : ShardRouter} (agree : AgreeOn keys left right) (aof aof' : AofLogger)
    : ofClient client (executeAll now schedule left aof).1
        = ofClient client
            (executeAlone now client (ofClient client schedule) right aof').1
      ∧ AgreeOn keys (executeAll now schedule left aof).2.1
          (executeAlone now client (ofClient client schedule) right aof').2.1 := by
  induction schedule generalizing left right aof aof' with
  | nil => exact ⟨rfl, agree⟩
  | cons first rest ih =>
      obtain ⟨other, command⟩ := first
      have own' := fun command member =>
        own command (List.mem_cons_of_mem _ member)
      have others' := fun other command member =>
        others other command (List.mem_cons_of_mem _ member)
      by_cases same : other = client
      · subst other
        obtain ⟨reply, next⟩ := agree.execute now (own command (by simp)) aof aof'
        obtain ⟨replies, final⟩ := ih own' others' next
          (command.execute .none now left aof).aof (command.execute .none now right aof').aof
        rw [ofClient_cons_self]
        refine ⟨?_, final⟩
        simp only [executeAll, executeAlone, List.map_cons, ofClient_cons_self]
        exact congrArg₂ List.cons reply replies
      · have next := agree.execute_other now (others other command (by simp) same) aof
        obtain ⟨replies, final⟩ := ih own' others' next
          (command.execute .none now left aof).aof aof'
        rw [ofClient_cons_of_ne same]
        refine ⟨?_, final⟩
        simp only [executeAll, ofClient_cons_of_ne same]
        exact replies

/-- All replies to a client alone are its own, by induction on its commands. -/
theorem ofClient_executeAlone (now : Int) (client : Client) (commands : List ICommand)
    (router : ShardRouter) (aof : AofLogger)
    : ofClient client (executeAlone now client commands router aof).1
      = (executeAlone now client commands router aof).1.map Prod.snd := by
  induction commands generalizing router aof with
  | nil => rfl
  | cons command rest ih =>
      simp only [executeAlone, List.map_cons, executeAll, ofClient_cons_self]
      exact congrArg _ (ih _ _)

namespace Interleaves

variable {sequences : Client → List ICommand} {schedule left right : List (Client × ICommand)}

theorem mem (interleaves : Interleaves schedule sequences) {client : Client}
    {command : ICommand} (member : (client, command) ∈ schedule)
    : command ∈ sequences client := by
  rw [← interleaves client]
  exact mem_ofClient.mpr member

/-- A client among others with other keys, seen from one router. -/
theorem alone (interleaves : Interleaves schedule sequences) (disjoint : DisjointKeys sequences)
    (now : Int) (router : ShardRouter) (aof : AofLogger) (client : Client)
    : ofClient client (executeAll now schedule router aof).1
        = (executeAlone now client (sequences client) router aof).1.map Prod.snd
      ∧ AgreeOn (fun key => ∃ command ∈ sequences client, command.key? = some key)
          (executeAll now schedule router aof).2.1
          (executeAlone now client (sequences client) router aof).2.1 := by
  have agree : AgreeOn (fun key => ∃ command ∈ sequences client, command.key? = some key)
      router router :=
    fun _ _ => rfl
  have apart := executeAll_eq_alone now client _
    (fun command member key named => ⟨command, interleaves.mem member, named⟩)
    (fun other command member different key named shared => by
      obtain ⟨mine, among, same⟩ := shared
      exact disjoint other client different command (interleaves.mem member) mine among key
        named same)
    agree aof aof
  rw [interleaves client, ofClient_executeAlone] at apart
  exact apart

end Interleaves

/-- Clients whose keys are all different do not notice one another: in every interleaving each
gets the replies that it gets alone on the store, and all interleavings leave the same store.
-/
theorem clients_isolated (now : Int) {sequences : Client → List ICommand}
    (disjoint : DisjointKeys sequences) (router : ShardRouter) (aof : AofLogger)
    : (∀ schedule,
          Interleaves schedule sequences
          → ∀ client,
              ofClient client (executeAll now schedule router aof).1
                = (executeAlone now client (sequences client) router aof).1.map Prod.snd)
      ∧ ∀ left right,
          Interleaves left sequences
          → Interleaves right sequences
          → (executeAll now left router aof).2.1 = (executeAll now right router aof).2.1 := by
  constructor
  · intro schedule interleaves client
    exact (interleaves.alone disjoint now router aof client).1
  · intro left right interleaves interleaves'
    have changed := changedAt_executeAll now left router aof
    have changed' := changedAt_executeAll now right router aof
    refine changed.eq_of_entry changed' fun key => ?_
    by_cases used : ∃ client, ∃ command ∈ sequences client, command.key? = some key
    · -- the client that has this key leaves it as it would alone, in both orders
      obtain ⟨client, mine⟩ := used
      have final := (interleaves.alone disjoint now router aof client).2 key mine
      have final' := (interleaves'.alone disjoint now router aof client).2 key mine
      exact final.trans final'.symm
    · have untouched {schedule : List (Client × ICommand)}
          (interleaves : Interleaves schedule sequences)
          : ¬ ∃ entry ∈ schedule, entry.2.key? = some key := by
        intro touched
        obtain ⟨⟨client, command⟩, member, named⟩ := touched
        exact used ⟨client, command, interleaves.mem member, named⟩
      rw [changed.entry (untouched interleaves), changed'.entry (untouched interleaves')]

end Clients

/-- One client pushes to a list while another counts on a field of a hash, in two orders. -/
theorem clients_isolated_two
    : let push : ICommand := .lpush (ascii "l") (ascii "x") 10
      let range : ICommand := .lrange (ascii "l") 0 (-1)
      let write : ICommand := .hset (ascii "h") (ascii "f") (ascii "v") 10
      let left : List (Bool × ICommand) := [(true, push), (false, write), (true, range)]
      let right : List (Bool × ICommand) := [(false, write), (true, push), (true, range)]
      ofClient true (executeAll 0 left (.construct 1024 0) {}).1
          = (executeAlone 0 true [push, range] (.construct 1024 0) {}).1.map Prod.snd
        ∧ (executeAll 0 left (.construct 1024 0) {}).2.1
          = (executeAll 0 right (.construct 1024 0) {}).2.1 := by
  intro push range write left right
  let sequences : Bool → List ICommand := fun client =>
    if client then [push, range] else [write]
  have disjoint : DisjointKeys sequences := by
    unfold DisjointKeys
    simp [sequences, push, range, write, ICommand.key?, ascii]
  have interleaves : Interleaves left sequences := by
    intro client
    cases client <;> rfl
  have interleaves' : Interleaves right sequences := by
    intro client
    cases client <;> rfl
  obtain ⟨alone, same⟩ := clients_isolated 0 disjoint (.construct 1024 0) {}
  exact ⟨alone left interleaves true, same left right interleaves interleaves'⟩

end InMemoryDB
