import InMemoryDB.Core.Containers

/-! The lists that `LPUSH` makes and `LRANGE` reads, and the hashes that `HSET` makes and `HGET`
reads.
-/

namespace InMemoryDB

-----------------------------------------------------------------------------------------
-- Lists
-----------------------------------------------------------------------------------------

/-- `LPUSH` puts its value behind the last element and answers with the new length. -/
def pushOnto (items : List Bytes) : ICommand → Bytes × List Bytes
  | .lpush _ value _ => (integerReply (items ++ [value]).length, items ++ [value])
  | _ => ([], items)

def listContainer : Container (List Bytes) where
  empty := []
  data := .list
  Accepts write := write.container = some .list
  act write items := pushOnto items write
  made := by
    intro write now entry adds none
    cases write with
    | lpush key value ttl => simp [ICommand.effect, none, pushOnto, ICommand.ttl]
    | set | get | del | «exists» | ping | lrange | hset | hget => cases adds
  added := by
    intro write now entry found items adds live data
    cases write with
    | lpush key value ttl => simp [ICommand.effect, live, data, pushOnto]
    | set | get | del | «exists» | ping | lrange | hset | hget => cases adds

/-- Pushed one after another, the values stand in this order behind what was there; by induction
on them.
-/
theorem run_pushOnto (key : Bytes) (pushes : List (Bytes × Int)) (items : List Bytes)
    : Lockstep.run listContainer.act (pushes.map fun push => .lpush key push.1 push.2) items
      = ((List.range pushes.length).map fun turn =>
          integerReply ((items.length + turn + 1 : ℕ) : Int),
        items ++ pushes.map Prod.fst) := by
  induction pushes generalizing items with
  | nil => simp [Lockstep.run]
  | cons first rest ih =>
      obtain ⟨value, ttl⟩ := first
      simp only [List.map_cons, Lockstep.run, listContainer, pushOnto] at ih ⊢
      rw [ih, List.length_cons, List.range_succ_eq_map, List.map_cons, List.map_map]
      have length : (items ++ [value]).length = items.length + 1 := by simp
      rw [List.append_assoc, length]
      congr 2
      apply List.map_congr_left
      intro turn _
      simp only [Function.comp_apply]
      congr 2
      omega

/-- From the first to the last position there is the whole list. -/
theorem LRangeCommand.selected_all (items : List Bytes) : selected items 0 (-1) = items := by
  unfold selected fromEnd
  rw [if_neg (by decide), if_pos (by decide), show (-1 : Int) + items.length = items.length - 1
    by omega, max_self, min_self]
  exact Positions.between_all items

/-- What `LRANGE` reads of a key that holds a list. -/
theorem LRangeCommand.reply_of_holds {now : Int} {key : Bytes} {router : ShardRouter}
    {items : List Bytes} (holds : listContainer.Holds now (router.entry key) items)
    (start stop : Int) (aof : AofLogger)
    : (LRangeCommand.execute now key start stop router aof).reply
      = arrayReply (selected items start stop) := by
  rcases holds with ⟨none, rfl⟩ | ⟨found, live, data⟩
  · simp only [LRangeCommand.execute, ShardRouter.findLive_shardForKey, none]
    have nothing : selected listContainer.empty start stop = [] := rfl
    rw [nothing]
    rfl
  · have data : found.data = .list items := data
    simp only [LRangeCommand.execute, ShardRouter.findLive_shardForKey, live, data, slice_eq]

/-- A list reads the same with an element in front as with it behind exactly if the element is
everywhere in it; by induction on the list.
-/
theorem snoc_eq_cons_iff {α : Type} (item : α) (items : List α)
    : items ++ [item] = item :: items ↔ ∀ other ∈ items, other = item := by
  induction items with
  | nil => simp
  | cons first rest ih =>
      rw [List.cons_append, List.cons.injEq, List.forall_mem_cons, ← ih]
      constructor
      · rintro ⟨rfl, same⟩
        exact ⟨rfl, same⟩
      · rintro ⟨rfl, same⟩
        exact ⟨rfl, same⟩

/-- Values are pushed one after another onto a key that is not live at first and stays live from
the first of them on. The replies are their numbers, and `LRANGE` of the whole list has the last
value first, exactly if the values are the same in both orders. A push onto a live list puts its
value in front exactly if there is nothing but this value in the list.
-/
theorem prepends_iff (key : Bytes) (now : Int)
    : (∀ (steps : List (Int × StoreStep)) (store : ShardRouter × AofLogger) (since : Int)
          (pushes : List (Bytes × Int)),
          pushes ≠ []
          → liveEntry since (store.1.entry key) = none
          → writesOn key steps = pushes.map (fun push => .lpush key push.1 push.2)
          → StaysLive key now false steps store
          → (repliesOn key steps store
                = (List.range pushes.length).map (fun turn => integerReply ((turn + 1 : ℕ) : Int))
              ∧ (LRangeCommand.execute now key 0 (-1) (storeAfter steps store).1
                  (storeAfter steps store).2).reply
                = arrayReply (pushes.map Prod.fst).reverse
            ↔ (pushes.map Prod.fst).reverse = pushes.map Prod.fst))
      ∧ ∀ (value : Bytes) (ttl : Int) (router : ShardRouter) (aof : AofLogger)
          (found : CacheAlignedValue) (items : List Bytes),
          liveEntry now (router.entry key) = some found
          → found.data = .list items
          → ((LPushCommand.execute .none now key value ttl router aof).router.entry key
              = some { found with data := .list (value :: items) }
            ↔ ∀ item ∈ items, item = value) := by
  constructor
  · intro steps store since pushes _ absent writes stays
    have start : listContainer.Holds since (store.1.entry key) [] := .inl ⟨absent, rfl⟩
    have keeps := start.keeps
    rw [absent] at keeps
    have accepted : ∀ write ∈ writesOn key steps, listContainer.Accepts write := by
      intro write member
      rw [writes] at member
      obtain ⟨push, -, rfl⟩ := List.mem_map.mp member
      rfl
    obtain ⟨replies, holds⟩ := Container.keeps_of_run accepted stays keeps
    rw [writes, run_pushOnto] at replies holds
    have numbers : repliesOn key steps store
        = (List.range pushes.length).map fun turn => integerReply ((turn + 1 : ℕ) : Int) := by
      simpa using replies
    have read := LRangeCommand.reply_of_holds holds 0 (-1) (storeAfter steps store).2
    rw [LRangeCommand.selected_all, List.nil_append] at read
    rw [numbers, read]
    simp only [true_and]
    exact ⟨fun same => (arrayReply_inj same).symm, fun same => by rw [same]⟩
  · intro value ttl router aof found items live data
    have realizes := LPushCommand.realizes router aof now key value ttl
    have entry := (realizes.entry key).trans (if_pos rfl)
    have effect : ((ICommand.lpush key value ttl).effect now (router.entry key)).entry
        = some { found with data := .list (items ++ [value]) } := by
      simp only [ICommand.effect, live, data]
    rw [entry, effect, Option.some.injEq, CacheAlignedValue.mk.injEq]
    simp only [ValueVariant.list.injEq, and_true]
    exact snoc_eq_cons_iff value items

/-- The same value pushed twice, with another key written in between. -/
def pushedTwice : List (Int × StoreStep) :=
  [(0, .command (.lpush (ascii "k") (ascii "a") 10)),
    (1, .command (.lpush (ascii "l") (ascii "b") 10)),
    (2, .command (.lpush (ascii "k") (ascii "a") 10))]

theorem prepends_iff_twice
    : repliesOn (ascii "k") pushedTwice (.construct 1024 0, {})
        = [integerReply 1, integerReply 2]
      ∧ (LRangeCommand.execute 3 (ascii "k") 0 (-1)
          (storeAfter pushedTwice (.construct 1024 0, {})).1
          (storeAfter pushedTwice (.construct 1024 0, {})).2).reply
        = arrayReply [ascii "a", ascii "a"] :=
  ((prepends_iff (ascii "k") 3).1 pushedTwice (.construct 1024 0, {}) 0
    [(ascii "a", 10), (ascii "a", 10)] (by simp) (by decide +kernel) (by decide +kernel)
    (by decide +kernel)).mpr rfl

/-- Of two values the first is read first. -/
theorem prepends_fails
    : ¬ ∀ (key : Bytes) (steps : List (Int × StoreStep)) (store : ShardRouter × AofLogger)
          (since now : Int) (pushes : List (Bytes × Int)),
        pushes ≠ []
        → liveEntry since (store.1.entry key) = none
        → writesOn key steps = pushes.map (fun push => .lpush key push.1 push.2)
        → StaysLive key now false steps store
        → repliesOn key steps store
            = (List.range pushes.length).map (fun turn => integerReply ((turn + 1 : ℕ) : Int))
          ∧ (LRangeCommand.execute now key 0 (-1) (storeAfter steps store).1
              (storeAfter steps store).2).reply
            = arrayReply (pushes.map Prod.fst).reverse := by
  intro claim
  have both := claim (ascii "k")
    [(0, .command (.lpush (ascii "k") (ascii "a") 10)),
      (1, .command (.lpush (ascii "k") (ascii "b") 10))]
    (.construct 1024 0, {}) 0 2 [(ascii "a", 10), (ascii "b", 10)] (by simp)
    (by decide +kernel) (by decide +kernel) (by decide +kernel)
  exact absurd both.2 (by decide +kernel)

-----------------------------------------------------------------------------------------
-- Hashes
-----------------------------------------------------------------------------------------

/-- `HSET` binds its field and answers whether the field is new. -/
def bindIn (fields : Finmap fun _ : Bytes => Bytes) : ICommand
    → Bytes × Finmap fun _ : Bytes => Bytes
  | .hset _ field value _ =>
      (integerReply (if (fields.lookup field).isNone then 1 else 0), fields.insert field value)
  | _ => ([], fields)

def hashContainer : Container (Finmap fun _ : Bytes => Bytes) where
  empty := ∅
  data := .hash
  Accepts write := write.container = some .hash
  act write fields := bindIn fields write
  made := by
    intro write now entry adds none
    cases write with
    | hset key field value ttl => simp [ICommand.effect, none, bindIn, ICommand.ttl]
    | set | get | del | «exists» | ping | lpush | lrange | hget => cases adds
  added := by
    intro write now entry found fields adds live data
    cases write with
    | hset key field value ttl => simp [ICommand.effect, live, data, bindIn]
    | set | get | del | «exists» | ping | lpush | lrange | hget => cases adds

/-- One after another, the fields are all bound, and the replies tell the new ones; by induction
on the bindings.
-/
theorem run_bindIn (key : Bytes) (sets : List ((Bytes × Bytes) × Int))
    (fields : Finmap fun _ : Bytes => Bytes)
    : Lockstep.run hashContainer.act
          (sets.map fun set => .hset key set.1.1 set.1.2 set.2) fields
      = ((Insertions.news (sets.map Prod.fst) fields).map fun new =>
          integerReply (if new then 1 else 0),
        Insertions.insertAll (sets.map Prod.fst) fields) := by
  induction sets generalizing fields with
  | nil => rfl
  | cons first rest ih =>
      obtain ⟨⟨field, value⟩, ttl⟩ := first
      simp only [List.map_cons, Lockstep.run, hashContainer, bindIn] at ih ⊢
      rw [ih]
      rfl

/-- What `HGET` reads of a key that holds a hash. -/
theorem HGetCommand.reply_of_holds {now : Int} {key : Bytes} {router : ShardRouter}
    {fields : Finmap fun _ : Bytes => Bytes}
    (holds : hashContainer.Holds now (router.entry key) fields) (field : Bytes)
    (aof : AofLogger)
    : (HGetCommand.execute now key field router aof).reply
      = ((fields.lookup field).map bulkReply).getD nullReply := by
  rcases holds with ⟨none, rfl⟩ | ⟨found, live, data⟩
  · simp only [HGetCommand.execute, ShardRouter.findLive_shardForKey, none]
    have nothing : hashContainer.empty.lookup field = Option.none := Finmap.lookup_empty field
    rw [nothing]
    rfl
  · have data : found.data = .hash fields := data
    simp only [HGetCommand.execute, ShardRouter.findLive_shardForKey, live, data]
    cases fields.lookup field <;> rfl

/-- Fields are set one after another under a key that stays live from the first of them on, and
is a hash or not live before. In the end it holds a hash in which every field has the value set
last, or the one it had before, and `HGET` reads it; the replies `:1` are as many as the fields
by which it has grown.
-/
theorem HSetCommand.finite_map (key : Bytes) (steps : List (Int × StoreStep))
    (store : ShardRouter × AofLogger) {since now : Int}
    {fields : Finmap fun _ : Bytes => Bytes} {sets : List ((Bytes × Bytes) × Int)}
    (start : hashContainer.Holds since (store.1.entry key) fields)
    (writes : writesOn key steps = sets.map fun set => .hset key set.1.1 set.1.2 set.2)
    (stays : StaysLive key now (liveEntry since (store.1.entry key)).isSome steps store)
    : ∃ final,
        hashContainer.Holds now ((storeAfter steps store).1.entry key) final
        ∧ (∀ field,
            final.lookup field
              = (Insertions.last field (sets.map Prod.fst)).or (fields.lookup field)
            ∧ (HGetCommand.execute now key field (storeAfter steps store).1
                (storeAfter steps store).2).reply
              = ((final.lookup field).map bulkReply).getD nullReply)
        ∧ final.keys = fields.keys ∪ (sets.map fun set => set.1.1).toFinset
        ∧ (repliesOn key steps store).count (integerReply 1) + fields.keys.card
          = final.keys.card := by
  have accepted : ∀ write ∈ writesOn key steps, hashContainer.Accepts write := by
    intro write member
    rw [writes] at member
    obtain ⟨set, -, rfl⟩ := List.mem_map.mp member
    rfl
  obtain ⟨replies, holds⟩ := Container.keeps_of_run accepted stays start.keeps
  rw [writes, run_bindIn] at replies holds
  have counted : (repliesOn key steps store).count (integerReply 1)
      = (Insertions.news (sets.map Prod.fst) fields).count true := by
    have distinct : Function.Injective fun new : Bool => integerReply (if new then 1 else 0) := by
      intro new new' same
      have numbers := integerReply_inj same
      revert numbers
      cases new <;> cases new' <;> simp
    rw [replies]
    exact List.count_map_of_injective _ _ distinct true
  refine ⟨_, holds, ?_, ?_, ?_⟩
  · intro field
    exact ⟨Insertions.lookup_insertAll _ _ field, HGetCommand.reply_of_holds holds field _⟩
  · rw [Insertions.keys_insertAll, List.map_map]
    rfl
  · rw [counted]
    exact Insertions.count_news _ _

/-- A field set twice, with another key written in between. -/
def setTwice : List (Int × StoreStep) :=
  [(0, .command (.hset (ascii "k") (ascii "f") (ascii "a") 10)),
    (1, .command (.hset (ascii "l") (ascii "g") (ascii "b") 10)),
    (2, .command (.hset (ascii "k") (ascii "f") (ascii "c") 10))]

theorem HSetCommand.finite_map_twice
    : ∃ final,
        hashContainer.Holds 3
          ((storeAfter setTwice (.construct 1024 0, {})).1.entry (ascii "k")) final
        ∧ final.keys = {ascii "f"}
        ∧ (HGetCommand.execute 3 (ascii "k") (ascii "f")
            (storeAfter setTwice (.construct 1024 0, {})).1
            (storeAfter setTwice (.construct 1024 0, {})).2).reply
          = bulkReply (ascii "c")
        ∧ (repliesOn (ascii "k") setTwice (.construct 1024 0, {})).count (integerReply 1)
          = 1 := by
  have start : hashContainer.Holds 0
      ((ShardRouter.construct 1024 0, ({} : AofLogger)).1.entry (ascii "k")) ∅ :=
    .inl ⟨by decide +kernel, rfl⟩
  obtain ⟨final, holds, reads, keys, count⟩ :=
    @HSetCommand.finite_map (ascii "k") setTwice (.construct 1024 0, {}) 0 3 ∅
      [((ascii "f", ascii "a"), 10), ((ascii "f", ascii "c"), 10)] start
      (by decide +kernel) (by decide +kernel)
  have found := (reads (ascii "f")).1.trans (show _ = some (ascii "c") from rfl)
  have single : final.keys = {ascii "f"} := keys.trans (by decide +kernel)
  refine ⟨final, holds, single, ?_, ?_⟩
  · rw [(reads (ascii "f")).2, found]
    rfl
  · rw [single] at count
    exact count

end InMemoryDB
