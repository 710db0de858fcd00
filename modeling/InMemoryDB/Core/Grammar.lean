import InMemoryDB.Core.IntegerArguments

/-! The language of request lines, and what each line of it asks for. -/

namespace InMemoryDB

namespace CommandFactory

-----------------------------------------------------------------------------------------
-- Tokens
-----------------------------------------------------------------------------------------

/-- The token begins, maybe behind blanks, with the numeral of a number that fits. -/
def Shows (token : Bytes) (number : Int) : Prop :=
  ∃ blanks rest, Reading token number blanks rest

/-- The time to live that the tokens behind the value of a `SET` ask for. -/
inductive AsksTtl : List Bytes → Int → Prop
  | none : AsksTtl [] defaultTtl
  | number {token rest ttl} (shows : Shows token ttl) : AsksTtl (token :: rest) ttl
  | other {token rest} (silent : ∀ number, ¬ Shows token number)
    : AsksTtl (token :: rest) defaultTtl

theorem asksTtl_iff {tokens : List Bytes} {ttl : Int}
    : AsksTtl tokens ttl ↔ setTtl tokens = ttl := by
  constructor
  · intro asks
    cases asks with
    | none => rfl
    | number shows => rw [setTtl, stoll_eq_some.mpr shows, Option.getD_some]
    | @other token rest silent =>
        have unread : stoll token = none :=
          Option.eq_none_iff_forall_ne_some.mpr fun number read =>
            silent number (stoll_eq_some.mp read)
        rw [setTtl, unread, Option.getD_none]
  · rintro rfl
    cases tokens with
    | nil => exact .none
    | cons token rest =>
        rw [setTtl]
        cases read : stoll token with
        | none =>
            refine .other fun number shows => ?_
            rw [stoll_eq_some.mpr shows] at read
            cases read
        | some number => exact .number (stoll_eq_some.mp read)

/-- A verb in letters of either case. -/
def Names (token : Bytes) (verb : String) : Prop := token.map toUpper = ascii verb

/-- The requests that there are. Whatever follows the last argument is left out of account. -/
inductive Asks : List Bytes → ICommand → Prop
  | set {verb key value rest ttl} (named : Names verb "SET") (asks : AsksTtl rest ttl)
    : Asks (verb :: key :: value :: rest) (.set key value ttl)
  | get {verb key rest} (named : Names verb "GET") : Asks (verb :: key :: rest) (.get key)
  | del {verb key rest} (named : Names verb "DEL") : Asks (verb :: key :: rest) (.del key)
  | «exists» {verb key rest} (named : Names verb "EXISTS")
    : Asks (verb :: key :: rest) (.exists key)
  | ping {verb rest} (named : Names verb "PING") : Asks (verb :: rest) .ping
  | lpush {verb key value rest} (named : Names verb "LPUSH")
    : Asks (verb :: key :: value :: rest) (.lpush key value defaultTtl)
  | lrange {verb key first second rest start stop} (named : Names verb "LRANGE")
    (shows : Shows first start) (shows' : Shows second stop)
    : Asks (verb :: key :: first :: second :: rest) (.lrange key start stop)
  | hset {verb key field value rest} (named : Names verb "HSET")
    : Asks (verb :: key :: field :: value :: rest) (.hset key field value defaultTtl)
  | hget {verb key field rest} (named : Names verb "HGET")
    : Asks (verb :: key :: field :: rest) (.hget key field)

/-- The factory makes what the tokens ask for, by cases on the request. -/
theorem Asks.parse {tokens : List Bytes} {command : ICommand} (asks : Asks tokens command)
    : parse tokens = some command := by
  cases asks with
  | @set verb key value rest ttl named asks =>
      exact parse_eq_set.mpr ⟨verb, rest, rfl, named, asksTtl_iff.mp asks⟩
  | @lrange verb key first second rest start stop named shows shows' =>
      exact parse_eq_lrange.mpr
        ⟨verb, first, second, rest, rfl, named, stoll_eq_some.mpr shows, stoll_eq_some.mpr shows'⟩
  | get named | del named | «exists» named | ping named | lpush named | hset named | hget named =>
      unfold Names at named
      simp only [CommandFactory.parse, named]
      rfl

/-- What the factory makes was asked for, by cases on what it makes. -/
theorem asks_of_parses {tokens : List Bytes} {command : ICommand} (parses : Parses tokens command)
    : Asks tokens command := by
  cases parses with
  | set named => exact .set named (asksTtl_iff.mpr rfl)
  | get named => exact .get named
  | del named => exact .del named
  | «exists» named => exact .exists named
  | ping named => exact .ping named
  | lpush named => exact .lpush named
  | lrange named read read' =>
      exact .lrange named (stoll_eq_some.mp read) (stoll_eq_some.mp read')
  | hset named => exact .hset named
  | hget named => exact .hget named

/-- A line is a request exactly if it spells, with blanks in front, between and behind as it likes,
a verb in letters of either case and its arguments; and then it asks for that one command.
-/
theorem request_iff (line : Bytes) (command : ICommand)
    : parse (tokenize line) = some command
      ↔ ∃ tokens, Delimited.Spells isSpace tokens line ∧ Asks tokens command := by
  constructor
  · intro parsed
    exact ⟨tokenize line, Delimited.words_eq_iff.mp rfl, asks_of_parses (parses_of_parse parsed)⟩
  · rintro ⟨tokens, spelled, asks⟩
    rw [tokenize, spelled.words_eq, asks.parse]

end CommandFactory

end InMemoryDB
