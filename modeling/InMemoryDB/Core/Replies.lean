import InMemoryDB.Core.ListRange
import InMemoryDB.Library.Resp

/-! The replies of the commands as a client reads them. -/

namespace InMemoryDB

-----------------------------------------------------------------------------------------
-- The texts of replies
-----------------------------------------------------------------------------------------

theorem toDecimal_eq (number : Int) : toDecimal number = Resp.printInt number := by
  unfold toDecimal Resp.printInt
  split <;> rfl

theorem toDecimal_natCast (number : ℕ) : toDecimal number = Decimal.print number := by
  unfold toDecimal
  rw [if_neg (by omega), Int.natAbs_natCast]

theorem integerReply_eq (number : Int)
    : integerReply number = Resp.encode (.integer number) := by
  rw [integerReply, toDecimal_eq]
  rfl

theorem bulkReply_eq (text : Bytes) : bulkReply text = Resp.encode (.bulk text) := by
  rw [bulkReply, toDecimal_natCast]
  rfl

theorem arrayReply_eq (items : List Bytes)
    : arrayReply items = Resp.encode (.array items) := by
  have each : items.flatMap bulkReply = items.flatMap Resp.encodeBulk :=
    List.flatMap_congr fun item _ => bulkReply_eq item
  rw [arrayReply, toDecimal_natCast, each]
  rfl

/-- Two lists with the same reply are the same. -/
theorem arrayReply_inj {items others : List Bytes} (same : arrayReply items = arrayReply others)
    : items = others := by
  rw [arrayReply_eq, arrayReply_eq] at same
  exact Resp.Reply.array.inj (Resp.encode_inj trivial trivial same)

theorem integerReply_inj {number other : Int} (same : integerReply number = integerReply other)
    : number = other := by
  rw [integerReply_eq, integerReply_eq] at same
  exact Resp.Reply.integer.inj (Resp.encode_inj trivial trivial same)

def oomError : Resp.Reply :=
  .error (ascii "ERR OOM command not allowed when used memory > 'maxmemory'")

def wrongTypeError : Resp.Reply :=
  .error (ascii "WRONGTYPE Operation against a key holding the wrong kind of value")

theorem oomReply_eq : oomReply = Resp.encode oomError := by decide +kernel

theorem wrongTypeReply_eq : wrongTypeReply = Resp.encode wrongTypeError := by decide +kernel

theorem plain_ok : (Resp.Reply.simple (ascii "OK")).Plain := by
  change (13 : UInt8) ∉ _
  decide +kernel

theorem plain_pong : (Resp.Reply.simple (ascii "PONG")).Plain := by
  change (13 : UInt8) ∉ _
  decide +kernel

theorem plain_oomError : oomError.Plain := by
  change (13 : UInt8) ∉ _
  decide +kernel

theorem plain_wrongTypeError : wrongTypeError.Plain := by
  change (13 : UInt8) ∉ _
  decide +kernel

-----------------------------------------------------------------------------------------
-- The reply that a command means
-----------------------------------------------------------------------------------------

/-- The reply that a client should read: the value, the element, the number or the list that a
command has found, as it is.
-/
def ICommand.meant (now : Int) (entry : Option CacheAlignedValue) : ICommand → Resp.Reply
  | .set .. => .simple (ascii "OK")
  | .ping => .simple (ascii "PONG")
  | .get _ =>
      match liveEntry now entry with
      | none => .null
      | some found =>
          match found.data with
          | .string text => .bulk text
          | .integer number => .bulk (toDecimal number)
          -- a list or a hash only shows that it is one
          | .list _ => .bulk (ascii "(list)")
          | .hash _ => .bulk (ascii "(hash)")
  | .del _ => .integer (if entry.any fun value => !value.tombstoned then 1 else 0)
  | .exists _ => .integer (if (liveEntry now entry).isSome then 1 else 0)
  | .lpush .. =>
      match liveEntry now entry with
      | none => .integer 1
      | some found =>
          match found.data with
          | .list items => .integer (items.length + 1)
          | _ => wrongTypeError
  | .lrange _ start stop =>
      match liveEntry now entry with
      | none => .array []
      | some found =>
          match found.data with
          | .list items => .array (LRangeCommand.selected items start stop)
          | _ => wrongTypeError
  | .hset _ field _ _ =>
      match liveEntry now entry with
      | none => .integer 1
      | some found =>
          match found.data with
          | .hash fields => .integer (if field ∈ fields then 0 else 1)
          | _ => wrongTypeError
  | .hget _ field =>
      match liveEntry now entry with
      | none => .null
      | some found =>
          match found.data with
          | .hash fields =>
              match fields.lookup field with
              | none => .null
              | some value => .bulk value
          | _ => wrongTypeError

/-- Every reply is the text of what its command means, by cases on the command. -/
theorem ICommand.reply_effect (command : ICommand) (now : Int)
    (entry : Option CacheAlignedValue)
    : (command.effect now entry).reply = Resp.encode (command.meant now entry) := by
  cases command with
  | set | ping => rfl
  | get key =>
      unfold effect meant
      cases liveEntry now entry with
      | none => rfl
      | some found =>
          dsimp only
          cases found.data <;> exact bulkReply_eq _
  | del key =>
      unfold effect meant
      cases entry with
      | none => rfl
      | some value => cases dead : value.tombstoned <;> simp [dead, integerReply_eq]
  | «exists» key => exact integerReply_eq _
  | lpush key value ttl =>
      unfold effect meant
      cases liveEntry now entry with
      | none => rfl
      | some found =>
          dsimp only
          cases found.data with
          | list items => simp [integerReply_eq]
          | string _ | integer _ | hash _ => exact wrongTypeReply_eq
  | lrange key start stop =>
      unfold effect meant
      cases liveEntry now entry with
      | none => rfl
      | some found =>
          dsimp only
          cases found.data with
          | list items =>
              dsimp only
              rw [LRangeCommand.slice_eq, arrayReply_eq]
          | string _ | integer _ | hash _ => exact wrongTypeReply_eq
  | hset key field value ttl =>
      unfold effect meant
      cases liveEntry now entry with
      | none => rfl
      | some found =>
          dsimp only
          cases found.data with
          | hash fields =>
              dsimp only
              rw [integerReply_eq]
              by_cases known : field ∈ fields
              · obtain ⟨value, found⟩ := Finmap.mem_iff.mp known
                simp [known, found]
              · simp [known, Finmap.lookup_eq_none.mpr known]
          | string _ | integer _ | list _ => exact wrongTypeReply_eq
  | hget key field =>
      unfold effect meant
      cases liveEntry now entry with
      | none => rfl
      | some found =>
          dsimp only
          cases found.data with
          | hash fields =>
              dsimp only
              cases fields.lookup field with
              | none => rfl
              | some value => exact bulkReply_eq value
          | string _ | integer _ | list _ => exact wrongTypeReply_eq

/-- What a command means is `OK`, `PONG`, the error of the wrong type, or no line of text, by
cases on the command.
-/
theorem ICommand.meant_cases (command : ICommand) (now : Int)
    (entry : Option CacheAlignedValue)
    : command.meant now entry = .simple (ascii "OK")
      ∨ command.meant now entry = .simple (ascii "PONG")
      ∨ command.meant now entry = wrongTypeError
      ∨ ∀ text, command.meant now entry ≠ .simple text ∧ command.meant now entry ≠ .error text := by
  cases command with
  | set => exact .inl rfl
  | ping => exact .inr (.inl rfl)
  | del | «exists» => simp [meant]
  | get key =>
      unfold meant
      cases liveEntry now entry with
      | none => simp
      | some found => cases data : found.data <;> simp [data]
  | lpush key value ttl =>
      unfold meant
      cases liveEntry now entry with
      | none => simp
      | some found => cases data : found.data <;> simp [data]
  | lrange key start stop =>
      unfold meant
      cases liveEntry now entry with
      | none => simp
      | some found => cases data : found.data <;> simp [data]
  | hset key field value ttl =>
      unfold meant
      cases liveEntry now entry with
      | none => simp
      | some found => cases data : found.data <;> simp [data]
  | hget key field =>
      unfold meant
      cases liveEntry now entry with
      | none => simp
      | some found =>
          cases data : found.data with
          | hash fields => cases value : fields.lookup field <;> simp [data, value]
          | string _ | integer _ | list _ => simp [data]

/-- What a command means can be read back. -/
theorem ICommand.plain_meant (command : ICommand) (now : Int)
    (entry : Option CacheAlignedValue)
    : (command.meant now entry).Plain := by
  rcases command.meant_cases now entry with same | same | same | other
  · rw [same]
    exact plain_ok
  · rw [same]
    exact plain_pong
  · rw [same]
    exact plain_wrongTypeError
  · cases meant : command.meant now entry with
    | simple text => exact absurd meant (other text).1
    | error text => exact absurd meant (other text).2
    | integer | bulk | null | array => trivial

/-- The reply of an execution is the text of what the command means, or an arena has refused
memory and it says so.
-/
theorem ICommand.reply_execute (command : ICommand) (refusals : Refusals) (now : Int)
    (router : ShardRouter) (aof : AofLogger)
    : (command.execute refusals now router aof).reply
        = Resp.encode (command.meant now (command.entryIn router))
      ∨ command.asksMemory = true
        ∧ (∃ point, refusals point = true)
        ∧ (command.execute refusals now router aof).reply = Resp.encode oomError := by
  have full : (command.execute .none now router aof).reply
      = Resp.encode (command.meant now (command.entryIn router)) := by
    rw [(command.realizes router aof now).reply, command.reply_effect]
  by_cases some_refused : ∃ point, refusals point = true
  · rcases command.execute_none_or_refused refusals now router aof with same | ⟨asks, refused⟩
    · exact .inl (same ▸ full)
    · exact .inr ⟨asks, some_refused, by rw [refused, oomReply_eq]⟩
  · have none : refusals = .none := by
      funext point
      simpa [Refusals.none] using fun refused => some_refused ⟨point, refused⟩
    exact .inl (none ▸ full)

end InMemoryDB
