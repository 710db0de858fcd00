import InMemoryDB.Core.WorkerPool
import InMemoryDB.Library.Switches
import Mathlib.Data.Set.Card

/-! The broker of channels and their subscribers, and who is subscribed after any history of
calls.
-/

namespace InMemoryDB

/-- The order in which an unordered container is gone through: every member comes once. -/
structure Traversal {α : Type*} [DecidableEq α] (members : Finset α) where
  order : List α
  nodup : order.Nodup
  complete : order.toFinset = members

theorem Traversal.mem_iff {α : Type*} [DecidableEq α] {members : Finset α}
    (traversal : Traversal members) {member : α}
    : member ∈ traversal.order ↔ member ∈ members := by
  rw [← List.mem_toFinset, traversal.complete]

structure PubSubBroker where
  channels : Finmap fun _ : Bytes => Finset Socket := ∅

namespace PubSubBroker

def subscribe (channel : Bytes) (client : Socket) (broker : PubSubBroker) : PubSubBroker :=
  { broker with
    channels :=
      broker.channels.insert channel
        (insert client ((broker.channels.lookup channel).getD ∅)) }

/-- The client is erased from the entry of a channel, and the entry with its last one. -/
def eraseAt (channel : Bytes) (client : Socket) (subscribers : Finset Socket)
    (broker : PubSubBroker)
    : PubSubBroker :=
  if subscribers.erase client = ∅ then { broker with channels := broker.channels.erase channel }
  else { broker with channels := broker.channels.insert channel (subscribers.erase client) }

def unsubscribe (channel : Bytes) (client : Socket) (broker : PubSubBroker) : PubSubBroker :=
  match broker.channels.lookup channel with
  | none => broker
  | some subscribers => broker.eraseAt channel client subscribers

/-- The loop over the entries of the map does at each of them what `unsubscribe` does at the one it
finds. An entry that is erased leaves the others in their order.
-/
def unsubscribeAll (client : Socket) (broker : PubSubBroker)
    (traversal : Traversal broker.channels.keys)
    : PubSubBroker :=
  traversal.order.foldl (fun broker channel => broker.unsubscribe channel client) broker

def listChannels (broker : PubSubBroker) (traversal : Traversal broker.channels.keys)
    : List Bytes :=
  traversal.order.map fun name => name

def subscriberCount (channel : Bytes) (broker : PubSubBroker) : ℕ :=
  match broker.channels.lookup channel with
  | none => 0
  | some subscribers => subscribers.card

-----------------------------------------------------------------------------------------
-- The relation
-----------------------------------------------------------------------------------------

/-- The clients in the set of a channel. -/
def subscribers (channel : Bytes) (broker : PubSubBroker) : Finset Socket :=
  (broker.channels.lookup channel).getD ∅

theorem subscriberCount_eq (channel : Bytes) (broker : PubSubBroker)
    : broker.subscriberCount channel = (broker.subscribers channel).card := by
  rw [subscriberCount, subscribers]
  cases broker.channels.lookup channel with
  | none => rfl
  | some subscribers => rfl

theorem mem_subscribe {channel other : Bytes} {client member : Socket} {broker : PubSubBroker}
    : member ∈ (broker.subscribe channel client).subscribers other
      ↔ (other = channel ∧ member = client) ∨ member ∈ broker.subscribers other := by
  rw [subscribe, subscribers]
  rcases eq_or_ne other channel with rfl | different
  · simp [Finmap.lookup_insert, subscribers]
  · simp [Finmap.lookup_insert_of_ne _ different, subscribers, different]

theorem lookup_eraseAt {channel other : Bytes} {client : Socket} {known : Finset Socket}
    {broker : PubSubBroker}
    : (broker.eraseAt channel client known).channels.lookup other
      = if other = channel then
          if known.erase client = ∅ then none else some (known.erase client)
        else broker.channels.lookup other := by
  rw [eraseAt]
  split_ifs with last same same
  · rw [same, Finmap.lookup_erase]
  · rw [Finmap.lookup_erase_ne same]
  · rw [same, Finmap.lookup_insert]
  · rw [Finmap.lookup_insert_of_ne _ same]

theorem subscribers_eraseAt {channel other : Bytes} {client : Socket} {known : Finset Socket}
    {broker : PubSubBroker}
    : (broker.eraseAt channel client known).subscribers other
      = if other = channel then known.erase client else broker.subscribers other := by
  rw [subscribers, lookup_eraseAt]
  split_ifs with same last
  · exact last.symm
  · rfl
  · rfl

theorem mem_unsubscribe {channel other : Bytes} {client member : Socket} {broker : PubSubBroker}
    : member ∈ (broker.unsubscribe channel client).subscribers other
      ↔ member ∈ broker.subscribers other ∧ ¬ (other = channel ∧ member = client) := by
  cases found : broker.channels.lookup channel with
  | none =>
      have kept : broker.unsubscribe channel client = broker := by rw [unsubscribe, found]
      rw [kept]
      refine ⟨fun subscribed => ⟨subscribed, ?_⟩, And.left⟩
      rintro ⟨rfl, -⟩
      rw [subscribers, found] at subscribed
      exact absurd subscribed (Finset.notMem_empty member)
  | some known =>
      have erased : broker.unsubscribe channel client = broker.eraseAt channel client known := by
        rw [unsubscribe, found]
      rw [erased, subscribers_eraseAt]
      split_ifs with same
      · rw [same, subscribers, found, Option.getD_some, Finset.mem_erase, and_comm]
        simp
      · simp [same]

/-- Going through some of the channels erases the client there, by induction on them. -/
theorem mem_unsubscribe_foldl {order : List Bytes} {other : Bytes} {client member : Socket}
    {broker : PubSubBroker}
    : member
        ∈ (order.foldl (fun broker channel => broker.unsubscribe channel client) broker).subscribers
          other
      ↔ member ∈ broker.subscribers other ∧ ¬ (other ∈ order ∧ member = client) := by
  induction order generalizing broker with
  | nil => simp
  | cons channel rest ih =>
      rw [List.foldl_cons, ih, mem_unsubscribe, List.mem_cons]
      tauto

theorem mem_channels_of_mem_subscribers {channel : Bytes} {client : Socket}
    {broker : PubSubBroker} (subscribed : client ∈ broker.subscribers channel)
    : channel ∈ broker.channels := by
  by_contra absent
  rw [subscribers, Finmap.lookup_eq_none.mpr absent] at subscribed
  exact absurd subscribed (Finset.notMem_empty client)

/-- Every channel of the client is among those that are gone through. -/
theorem mem_unsubscribeAll {other : Bytes} {client member : Socket} {broker : PubSubBroker}
    (traversal : Traversal broker.channels.keys)
    : member ∈ (broker.unsubscribeAll client traversal).subscribers other
      ↔ member ∈ broker.subscribers other ∧ member ≠ client := by
  rw [unsubscribeAll, mem_unsubscribe_foldl]
  refine and_congr_right fun subscribed => not_congr (and_iff_right ?_)
  exact traversal.mem_iff.mpr (Finmap.mem_keys.mpr (mem_channels_of_mem_subscribers subscribed))

-----------------------------------------------------------------------------------------
-- Channels without subscribers
-----------------------------------------------------------------------------------------

/-- No channel has an empty set. -/
def Filled (broker : PubSubBroker) : Prop := ∀ channel, broker.channels.lookup channel ≠ some ∅

theorem Filled.mem_channels_iff {broker : PubSubBroker} (filled : broker.Filled) {channel : Bytes}
    : channel ∈ broker.channels ↔ ∃ client, client ∈ broker.subscribers channel := by
  constructor
  · intro listed
    obtain ⟨known, found⟩ := Finmap.mem_iff.mp listed
    rw [subscribers, found]
    exact Finset.nonempty_iff_ne_empty.mpr fun empty => filled channel (empty ▸ found)
  · rintro ⟨client, subscribed⟩
    exact mem_channels_of_mem_subscribers subscribed

theorem filled_empty : ({} : PubSubBroker).Filled :=
  fun channel => Finmap.lookup_empty channel ▸ nofun

theorem Filled.subscribe {broker : PubSubBroker} (filled : broker.Filled) (channel : Bytes)
    (client : Socket)
    : (broker.subscribe channel client).Filled := by
  intro other
  rw [PubSubBroker.subscribe]
  rcases eq_or_ne other channel with rfl | different
  · rw [Finmap.lookup_insert, Ne, Option.some.injEq]
    exact Finset.insert_ne_empty _ _
  · rw [Finmap.lookup_insert_of_ne _ different]
    exact filled other

theorem Filled.unsubscribe {broker : PubSubBroker} (filled : broker.Filled) (channel : Bytes)
    (client : Socket)
    : (broker.unsubscribe channel client).Filled := by
  intro other
  rw [PubSubBroker.unsubscribe]
  split
  · exact filled other
  · rw [lookup_eraseAt]
    split_ifs with same last
    · exact nofun
    · exact fun found => last (Option.some.inj found)
    · exact filled other

/-- By induction on the channels that are gone through. -/
theorem Filled.unsubscribeAll {broker : PubSubBroker} (filled : broker.Filled) (client : Socket)
    (traversal : Traversal broker.channels.keys)
    : (broker.unsubscribeAll client traversal).Filled := by
  rw [PubSubBroker.unsubscribeAll]
  generalize traversal.order = order
  clear traversal
  induction order generalizing broker with
  | nil => exact filled
  | cons channel rest ih => exact ih (filled.unsubscribe channel client)

-----------------------------------------------------------------------------------------
-- Histories
-----------------------------------------------------------------------------------------

/-- A call, with the order in which the map is gone through if it is. -/
inductive Call where
  | subscribe (channel : Bytes) (client : Socket)
  | unsubscribe (channel : Bytes) (client : Socket)
  | unsubscribeAll (client : Socket) (order : List Bytes)

/-- Every call has the mutex to itself. -/
def step (broker : PubSubBroker) : Call → Option PubSubBroker
  | .subscribe channel client => some (broker.subscribe channel client)
  | .unsubscribe channel client => some (broker.unsubscribe channel client)
  | .unsubscribeAll client order =>
      if all : order.Nodup ∧ order.toFinset = broker.channels.keys then
        some (broker.unsubscribeAll client ⟨order, all.1, all.2⟩)
      else none

/-- The call subscribes the client to the channel. -/
def Call.Starts (channel : Bytes) (client : Socket) : Call → Prop
  | .subscribe channel' client' => channel' = channel ∧ client' = client
  | .unsubscribe .. | .unsubscribeAll .. => False

/-- The call ends a subscription of the client to the channel, if there is one. -/
def Call.Ends (channel : Bytes) (client : Socket) : Call → Prop
  | .subscribe .. => False
  | .unsubscribe channel' client' => channel' = channel ∧ client' = client
  | .unsubscribeAll client' _ => client' = client

/-- A call that subscribes the client to the channel has none behind it that ends this. -/
def Subscribed (history : List Call) (channel : Bytes) (client : Socket) : Prop :=
  Switches.LastOn (Call.Starts channel client) (Call.Ends channel client) history

/-- What a call does to the relation. -/
theorem mem_step {broker next : PubSubBroker} {call : Call} {channel : Bytes} {client : Socket}
    (taken : step broker call = some next)
    : client ∈ next.subscribers channel
      ↔ call.Starts channel client
        ∨ client ∈ broker.subscribers channel ∧ ¬ call.Ends channel client := by
  cases call with
  | subscribe other member =>
      obtain rfl := Option.some.inj taken
      rw [mem_subscribe, eq_comm, eq_comm (a := client)]
      simp [Call.Starts, Call.Ends]
  | unsubscribe other member =>
      obtain rfl := Option.some.inj taken
      rw [mem_unsubscribe, eq_comm, eq_comm (a := client)]
      simp [Call.Starts, Call.Ends]
  | unsubscribeAll member order =>
      obtain ⟨all, same⟩ := Option.dite_none_right_eq_some.mp taken
      obtain rfl := Option.some.inj same
      rw [mem_unsubscribeAll, ne_comm]
      simp [Call.Starts, Call.Ends]

theorem Filled.step {broker next : PubSubBroker} (filled : broker.Filled) {call : Call}
    (taken : step broker call = some next)
    : next.Filled := by
  cases call with
  | subscribe channel client =>
      obtain rfl := Option.some.inj taken
      exact filled.subscribe channel client
  | unsubscribe channel client =>
      obtain rfl := Option.some.inj taken
      exact filled.unsubscribe channel client
  | unsubscribeAll client order =>
      obtain ⟨all, same⟩ := Option.dite_none_right_eq_some.mp taken
      obtain rfl := Option.some.inj same
      exact filled.unsubscribeAll client _

/-- No call is ever refused: every map can be gone through in some order. -/
theorem exists_traversal (broker : PubSubBroker) (client : Socket)
    : ∃ order next, step broker (.unsubscribeAll client order) = some next := by
  refine ⟨broker.channels.keys.toList, _, dif_pos ⟨Finset.nodup_toList _, ?_⟩⟩
  exact Finset.toList_toFinset _

/-- The broker is the relation that a history of calls describes. -/
structure Mirrors (broker : PubSubBroker) (history : List Call) : Prop where
  members
    : ∀ channel client,
        client ∈ broker.subscribers channel ↔ Subscribed history channel client
  filled : ∀ channel, broker.channels.lookup channel ≠ some ∅
  listed
    : ∀ traversal,
        (broker.listChannels traversal).Nodup
        ∧ ∀ channel,
            channel ∈ broker.listChannels traversal ↔ ∃ client, Subscribed history channel client
  counted
    : ∀ channel,
        (broker.subscriberCount channel : ℕ∞) = {client | Subscribed history channel client}.encard
  others
    : ∀ client traversal other channel,
        other ≠ client
        → (other ∈ (broker.unsubscribeAll client traversal).subscribers channel
          ↔ other ∈ broker.subscribers channel)

/-- After any history the broker is what the history describes. -/
theorem mirrors_of_run {steps : List (PubSubBroker × Call)} {broker : PubSubBroker}
    (run : TransitionSystem.Run step {} steps broker)
    : broker.Mirrors (steps.map Prod.snd) := by
  have members (channel : Bytes) (client : Socket)
      : client ∈ broker.subscribers channel ↔ Subscribed (steps.map Prod.snd) channel client :=
    Switches.holds_iff_lastOn
      (fun broker (pair : Bytes × Socket) => pair.2 ∈ broker.subscribers pair.1)
      (fun call pair => call.Starts pair.1 pair.2) (fun call pair => call.Ends pair.1 pair.2)
      mem_step run (channel, client) (Finset.notMem_empty client)
  have filled : broker.Filled :=
    run.preserves (fun filled taken => filled.step taken) filled_empty
  refine ⟨members, filled, ?_, ?_, ?_⟩
  · intro traversal
    rw [listChannels, List.map_id']
    refine ⟨traversal.nodup, fun channel => ?_⟩
    rw [traversal.mem_iff, Finmap.mem_keys, filled.mem_channels_iff]
    exact exists_congr (members channel)
  · intro channel
    rw [subscriberCount_eq, ← Set.encard_coe_eq_coe_finsetCard]
    exact congrArg Set.encard (Set.ext (members channel))
  · intro client traversal other channel different
    rw [mem_unsubscribeAll]
    exact and_iff_left different

/-- A second client stays when the first one leaves all channels, and a channel that only the first
one had is gone.
-/
theorem mirrors_of_run_left
    : ∃ (broker : PubSubBroker) (steps : List (PubSubBroker × Call)),
        steps.map Prod.snd
          = [.subscribe (ascii "news") 4, .subscribe (ascii "news") 5,
              .subscribe (ascii "chat") 4, .unsubscribeAll 4 [ascii "chat", ascii "news"]]
        ∧ broker.channels.keys = {ascii "news"}
        ∧ broker.Mirrors (steps.map Prod.snd) := by
  have traced
      : TransitionSystem.trace step {}
          [.subscribe (ascii "news") 4, .subscribe (ascii "news") 5, .subscribe (ascii "chat") 4,
            .unsubscribeAll 4 [ascii "chat", ascii "news"]]
        = some _ := rfl
  exact ⟨_, _, rfl, by decide +kernel, mirrors_of_run (TransitionSystem.run_of_trace traced)⟩

end PubSubBroker

end InMemoryDB
