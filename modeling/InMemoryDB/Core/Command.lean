import InMemoryDB.Daemons.AofLogger
import InMemoryDB.Engine.ShardRouter

/-! The nine commands: what each does to the store, what it replies, what it logs. -/

namespace InMemoryDB

-----------------------------------------------------------------------------------------
-- Replies
-----------------------------------------------------------------------------------------

def crlf : Bytes := [13, 10]

def okReply : Bytes := ascii "+OK" ++ crlf

def pongReply : Bytes := ascii "+PONG" ++ crlf

def nullReply : Bytes := ascii "$-1" ++ crlf

def emptyArrayReply : Bytes := ascii "*0" ++ crlf

def oomReply : Bytes :=
  ascii "-ERR OOM command not allowed when used memory > 'maxmemory'" ++ crlf

def wrongTypeReply : Bytes :=
  ascii "-WRONGTYPE Operation against a key holding the wrong kind of value" ++ crlf

def integerReply (number : Int) : Bytes := ascii ":" ++ toDecimal number ++ crlf

def bulkReply (text : Bytes) : Bytes :=
  ascii "$" ++ toDecimal text.length ++ crlf ++ text ++ crlf

/-- A parsed request. `LPUSH` and `HSET` carry the time to live of their constructors. -/
inductive ICommand where
  | set (key value : Bytes) (ttl : Int)
  | get (key : Bytes)
  | del (key : Bytes)
  | exists (key : Bytes)
  | ping
  | lpush (key value : Bytes) (ttl : Int)
  | lrange (key : Bytes) (start stop : Int)
  | hset (key field value : Bytes) (ttl : Int)
  | hget (key field : Bytes)
  deriving DecidableEq

namespace ICommand

def isWrite : ICommand → Bool
  | .set .. | .del .. | .lpush .. | .hset .. => true
  | _ => false

def serialize : ICommand → Bytes
  | .set key value ttl => ascii "SET " ++ key ++ ascii " " ++ value ++ ascii " " ++ toDecimal ttl
  | .get key => ascii "GET " ++ key
  | .del key => ascii "DEL " ++ key
  | .exists key => ascii "EXISTS " ++ key
  | .ping => ascii "PING"
  | .lpush key value _ => ascii "LPUSH " ++ key ++ ascii " " ++ value
  | .lrange key start stop =>
      ascii "LRANGE " ++ key ++ ascii " " ++ toDecimal start ++ ascii " " ++ toDecimal stop
  | .hset key field value _ =>
      ascii "HSET " ++ key ++ ascii " " ++ field ++ ascii " " ++ value
  | .hget key field => ascii "HGET " ++ key ++ ascii " " ++ field

/-- The key a command works on. -/
def key? : ICommand → Option Bytes
  | .set key _ _ | .get key | .del key | .exists key | .lpush key _ _ | .lrange key _ _
  | .hset key _ _ _ | .hget key _ => some key
  | .ping => none

end ICommand

-----------------------------------------------------------------------------------------
-- Sections under the lock of a shard
-----------------------------------------------------------------------------------------

/-- The entry a list or hash command finds: present, not tombstoned and not expired. -/
def Shard.findLive (now : Int) (key : Bytes) (shard : Shard) : Option CacheAlignedValue :=
  (shard.data.lookup key).filter fun entry => !entry.tombstoned && !entry.isExpired now

/-- A change to an entry in place. -/
def Shard.replaceData (key : Bytes) (entry : CacheAlignedValue) (data : ValueVariant)
    (shard : Shard)
    : Shard :=
  { shard with data := shard.data.insert key { entry with data := data } }

namespace LPushCommand

/-- The two branches of the `try` block, on the live entry it has found. -/
def pushInto (refusals : Refusals) (now : Int) (key value : Bytes) (ttl : Int)
    : Option CacheAlignedValue → Guarded Shard (Bytes × Bool)
  | some entry =>
      match entry.data with
      | .list items => do
          allocate refusals .element
          modify fun shard => shard.replaceData key entry (.list (items ++ [value]))
          return (integerReply (items ++ [value]).length, true)
      | _ => return (wrongTypeReply, false)
  | none => do
      allocate refusals .container
      allocate refusals .element
      Shard.insertOrAssign refusals key (.new (.list [value]) ttl now)
      return (integerReply 1, true)

/-- The `try` block: the reply, and whether the command logs itself. -/
def tryPush (refusals : Refusals) (now : Int) (key value : Bytes) (ttl : Int)
    : Guarded Shard (Bytes × Bool) := do
  allocate refusals .key
  let shard ← get
  pushInto refusals now key value ttl (shard.findLive now key)

end LPushCommand

namespace HSetCommand

/-- The two branches of the `try` block. In the assignment the value is made before the
field's node, as the right operand is sequenced first.
-/
def setFieldIn (refusals : Refusals) (now : Int) (key field value : Bytes) (ttl : Int)
    : Option CacheAlignedValue → Guarded Shard (Bytes × Bool)
  | some entry =>
      match entry.data with
      | .hash fields => do
          allocate refusals .field
          let isNew := (fields.lookup field).isNone
          allocate refusals .value
          allocate refusals .fieldNode
          modify fun shard => shard.replaceData key entry (.hash (fields.insert field value))
          return (integerReply (if isNew then 1 else 0), true)
      | _ => return (wrongTypeReply, false)
  | none => do
      allocate refusals .container
      allocate refusals .value
      allocate refusals .field
      allocate refusals .fieldNode
      let fields := Finmap.insert field value ∅
      Shard.insertOrAssign refusals key (.new (.hash fields) ttl now)
      return (integerReply 1, true)

/-- The `try` block: the reply, and whether the command logs itself. -/
def trySet (refusals : Refusals) (now : Int) (key field value : Bytes) (ttl : Int)
    : Guarded Shard (Bytes × Bool) := do
  allocate refusals .key
  let shard ← get
  setFieldIn refusals now key field value ttl (shard.findLive now key)

end HSetCommand

/-- The frame that `LPUSH` and `HSET` share around their `try` blocks: the check of the
hard limit, and the reply to an arena that refuses.
-/
def Shard.guardedWrite (refusals : Refusals) (body : Guarded Shard (Bytes × Bool))
    (shard : Shard)
    : (Bytes × Bool) × Shard :=
  if refusals .hardLimit then ((oomReply, false), shard)
  else
    match body.run.run shard with
    | (.ok outcome, shard) => (outcome, shard)
    | (.error _, shard) => ((oomReply, false), shard)

/-- The slice that `LRANGE` returns, with its indices clamped as the source clamps them. -/
def LRangeCommand.slice (items : List Bytes) (start stop : Int) : Bytes :=
  let len : Int := items.length
  let s := if start < 0 then start + len else start
  let e := if stop < 0 then stop + len else stop
  let s := if s < 0 then 0 else s
  let e := if e ≥ len then len - 1 else e
  if s > e then emptyArrayReply
  else
    let count := e - s + 1
    -- the loop reads `items[s]` to `items[e]`; a read out of bounds would be undefined
    ascii "*" ++ toDecimal count ++ crlf
      ++ (List.range count.toNat).flatMap fun turn => bulkReply (items.getD (s + turn).toNat [])

-----------------------------------------------------------------------------------------
-- Execution
-----------------------------------------------------------------------------------------

/-- What a command leaves: its reply, the store and the log. -/
structure Execution where
  reply : Bytes
  router : ShardRouter
  aof : AofLogger

def SetCommand.execute (refusals : Refusals) (now : Int) (key value : Bytes) (ttl : Int)
    (router : ShardRouter) (aof : AofLogger)
    : Execution :=
  let (stored, router) := router.set refusals now key value ttl
  if stored then ⟨okReply, router, aof.logUnlessReplaying (ICommand.set key value ttl).serialize⟩
  else ⟨oomReply, router, aof⟩

def GetCommand.execute (now : Int) (key : Bytes) (router : ShardRouter) (aof : AofLogger)
    : Execution :=
  match router.get now key with
  | none => ⟨nullReply, router, aof⟩
  | some text => ⟨bulkReply text, router, aof⟩

def DelCommand.execute (key : Bytes) (router : ShardRouter) (aof : AofLogger) : Execution :=
  let (removed, router) := router.del key
  let aof := if removed then aof.logUnlessReplaying (ICommand.del key).serialize else aof
  ⟨integerReply (if removed then 1 else 0), router, aof⟩

def ExistsCommand.execute (now : Int) (key : Bytes) (router : ShardRouter) (aof : AofLogger)
    : Execution :=
  ⟨integerReply (if router.exists now key then 1 else 0), router, aof⟩

def PingCommand.execute (router : ShardRouter) (aof : AofLogger) : Execution :=
  ⟨pongReply, router, aof⟩

def LPushCommand.execute (refusals : Refusals) (now : Int) (key value : Bytes) (ttl : Int)
    (router : ShardRouter) (aof : AofLogger)
    : Execution :=
  let ((reply, logged), shard) :=
    (router.shardForKey key).guardedWrite refusals (tryPush refusals now key value ttl)
  let record := (ICommand.lpush key value ttl).serialize
  ⟨reply, router.putShard key shard, if logged then aof.logUnlessReplaying record else aof⟩

def LRangeCommand.execute (now : Int) (key : Bytes) (start stop : Int)
    (router : ShardRouter) (aof : AofLogger)
    : Execution :=
  match (router.shardForKey key).findLive now key with
  | none => ⟨emptyArrayReply, router, aof⟩
  | some entry =>
      match entry.data with
      | .list items => ⟨slice items start stop, router, aof⟩
      | _ => ⟨wrongTypeReply, router, aof⟩

def HSetCommand.execute (refusals : Refusals) (now : Int) (key field value : Bytes)
    (ttl : Int) (router : ShardRouter) (aof : AofLogger)
    : Execution :=
  let ((reply, logged), shard) :=
    (router.shardForKey key).guardedWrite refusals (trySet refusals now key field value ttl)
  let record := (ICommand.hset key field value ttl).serialize
  ⟨reply, router.putShard key shard, if logged then aof.logUnlessReplaying record else aof⟩

def HGetCommand.execute (now : Int) (key field : Bytes) (router : ShardRouter)
    (aof : AofLogger)
    : Execution :=
  match (router.shardForKey key).findLive now key with
  | none => ⟨nullReply, router, aof⟩
  | some entry =>
      match entry.data with
      | .hash fields =>
          match fields.lookup field with
          | none => ⟨nullReply, router, aof⟩
          | some value => ⟨bulkReply value, router, aof⟩
      | _ => ⟨wrongTypeReply, router, aof⟩

/-- The virtual call. -/
def ICommand.execute (refusals : Refusals) (now : Int)
    : ICommand → ShardRouter → AofLogger → Execution
  | .set key value ttl => SetCommand.execute refusals now key value ttl
  | .get key => GetCommand.execute now key
  | .del key => DelCommand.execute key
  | .exists key => ExistsCommand.execute now key
  | .ping => PingCommand.execute
  | .lpush key value ttl => LPushCommand.execute refusals now key value ttl
  | .lrange key start stop => LRangeCommand.execute now key start stop
  | .hset key field value ttl => HSetCommand.execute refusals now key field value ttl
  | .hget key field => HGetCommand.execute now key field

end InMemoryDB
