import InMemoryDB.Network.Traffic

/-! Every response of a connection gets into its output once and in the order of the
requests, and no response gets into another connection's, as long as handles are not used
again too early.
-/

namespace InMemoryDB

/-- The responses to a numbered request of a connection among some results. -/
def responsesTo (id number : ℕ) (results : List TaskResult) : List Bytes :=
  (results.filter fun result => result.origin = id ∧ result.sequenceId = number).map
    TaskResult.response

theorem responsesTo_append (id number : ℕ) (front back : List TaskResult)
    : responsesTo id number (front ++ back)
      = responsesTo id number front ++ responsesTo id number back := by
  simp [responsesTo]

theorem responsesTo_own {id number : ℕ} {result : TaskResult} (own : result.origin = id)
    (same : result.sequenceId = number)
    : responsesTo id number [result] = [result.response] := by
  simp [responsesTo, own, same]

theorem responsesTo_other {id number : ℕ} {result : TaskResult}
    (other : ¬ (result.origin = id ∧ result.sequenceId = number))
    : responsesTo id number [result] = [] := by
  simpa [responsesTo] using other

namespace Traffic

/-- The requests whose results have not reached a connection. -/
def outstanding (traffic : Traffic) : List Ticket :=
  traffic.unposted ++ traffic.undelivered.map TaskResult.ticket

/-- No result for the handle is outstanding. -/
def NoneOutstanding (client : Socket) (traffic : Traffic) : Prop :=
  ∀ ticket ∈ traffic.outstanding, ticket.clientFd ≠ client

-----------------------------------------------------------------------------------------
-- What holds in every run
-----------------------------------------------------------------------------------------

/-- Requests and results come from connections accepted so far, no two open connections are
the same, and what comes from an open connection is addressed to its handle.
-/
structure Tagged (traffic : Traffic) : Prop where
  outstanding : ∀ ticket ∈ traffic.outstanding, ticket.origin < traffic.accepted
  posted : ∀ result ∈ traffic.posted, result.origin < traffic.accepted
  filled : ∀ result ∈ traffic.undelivered, result.response ≠ []
  opened
    : ∀ {client connection},
        traffic.connections.lookup client = some connection
        → connection.id < traffic.accepted
  unique
    : ∀ {client other connection connection'},
        traffic.connections.lookup client = some connection
        → traffic.connections.lookup other = some connection'
        → connection.id = connection'.id
        → client = other
  home
    : ∀ {client connection},
        traffic.connections.lookup client = some connection
        → ∀ ticket ∈ traffic.outstanding,
            ticket.origin = connection.id → ticket.clientFd = client

namespace Tagged

variable {traffic next : Traffic}

/-- A connection that keeps its number may change its state. -/
theorem put (tagged : traffic.Tagged) {client : Socket} {connection changed : Connection}
    (found : traffic.connections.lookup client = some connection)
    (same : changed.id = connection.id)
    : Tagged { traffic with connections := traffic.connections.insert client changed } := by
  have before {other : Socket} {state : Connection}
      (there : (traffic.connections.insert client changed).lookup other = some state)
      : ∃ earlier, traffic.connections.lookup other = some earlier ∧ state.id = earlier.id := by
    rcases lookup_insert_cases there with ⟨rfl, rfl⟩ | ⟨-, known⟩
    · exact ⟨connection, found, same⟩
    · exact ⟨state, known, rfl⟩
  refine { tagged with opened := ?_, unique := ?_, home := ?_ }
  · intro other state there
    obtain ⟨earlier, known, kept⟩ := before there
    exact kept ▸ tagged.opened known
  · intro first second state state' there there' equal
    obtain ⟨earlier, known, kept⟩ := before there
    obtain ⟨earlier', known', kept'⟩ := before there'
    exact tagged.unique known known' (kept.symm.trans (equal.trans kept'))
  · intro other state there ticket member own
    obtain ⟨earlier, known, kept⟩ := before there
    exact tagged.home known ticket member (own.trans kept)

/-- A new connection is not among those that have requests. -/
theorem accept (tagged : traffic.Tagged) {client : Socket} {state : Connection}
    (closed : traffic.connections.lookup client = none) (new : state.id = traffic.accepted)
    : Tagged
        { traffic with
          connections := traffic.connections.insert client state
          accepted := traffic.accepted + 1 } := by
  have split {other : Socket} {connection : Connection}
      (there : (traffic.connections.insert client state).lookup other = some connection)
      : other = client ∧ connection.id = traffic.accepted
        ∨ traffic.connections.lookup other = some connection := by
    rcases lookup_insert_cases there with ⟨rfl, rfl⟩ | ⟨-, known⟩
    · exact .inl ⟨rfl, new⟩
    · exact .inr known
  constructor
  case outstanding =>
    exact fun ticket member => Nat.lt_succ_of_lt (tagged.outstanding ticket member)
  case posted => exact fun result member => Nat.lt_succ_of_lt (tagged.posted result member)
  case filled => exact tagged.filled
  case opened =>
    intro other connection there
    rcases split there with ⟨-, same⟩ | known
    · exact same ▸ Nat.lt_succ_self _
    · exact Nat.lt_succ_of_lt (tagged.opened known)
  case unique =>
    intro first second connection connection' there there' equal
    rcases split there with ⟨rfl, same⟩ | known <;> rcases split there' with ⟨rfl, same'⟩ | known'
    · rfl
    · exact absurd (equal.symm.trans same) (tagged.opened known').ne
    · exact absurd (equal.trans same') (tagged.opened known).ne
    · exact tagged.unique known known' equal
  case home =>
    intro other connection there ticket member own
    rcases split there with ⟨-, same⟩ | known
    · exact absurd (own.trans same) (tagged.outstanding ticket member).ne
    · exact tagged.home known ticket member own

theorem close (tagged : traffic.Tagged) (client : Socket)
    : Tagged { traffic with connections := traffic.connections.erase client } := by
  exact {
    tagged with
    opened := fun there => tagged.opened (lookup_of_lookup_erase there)
    unique := fun there there' =>
      tagged.unique (lookup_of_lookup_erase there) (lookup_of_lookup_erase there')
    home := fun there => tagged.home (lookup_of_lookup_erase there)
  }

/-- Other requests and results may be outstanding, if they keep the tags. -/
theorem exchange (tagged : traffic.Tagged) (unposted : List Ticket)
    (undelivered posted : List TaskResult)
    (known
      : ∀ ticket ∈ unposted ++ undelivered.map TaskResult.ticket,
          ticket ∈ traffic.outstanding
          ∨ ∃ connection,
              traffic.connections.lookup ticket.clientFd = some connection
              ∧ ticket.origin = connection.id)
    (sent : ∀ result ∈ posted, result ∈ traffic.posted ∨ result.ticket ∈ traffic.outstanding)
    (filled : ∀ result ∈ undelivered, result.response ≠ [])
    : Tagged
        { traffic with unposted := unposted, undelivered := undelivered, posted := posted } := by
  constructor
  case outstanding =>
    intro ticket member
    rcases known ticket member with before | ⟨connection, found, own⟩
    · exact tagged.outstanding ticket before
    · exact own ▸ tagged.opened found
  case posted =>
    intro result member
    rcases sent result member with before | asked
    · exact tagged.posted result before
    · exact tagged.outstanding _ asked
  case filled => exact filled
  case opened => exact tagged.opened
  case unique => exact tagged.unique
  case home =>
    intro client connection there ticket member own
    rcases known ticket member with before | ⟨connection', found, own'⟩
    · exact tagged.home there ticket before own
    · exact tagged.unique found there (own'.symm.trans own)

/-- Every move keeps the tags, by cases on the move. -/
theorem moves {opened : Option Socket} (tagged : traffic.Tagged)
    (moved : traffic.Moves opened next)
    : next.Tagged := by
  cases moved with
  | stay => exact tagged
  | accept client ip closed => exact tagged.accept closed rfl
  | close client => exact tagged.close client
  | read found => exact tagged.put found rfl
  | write found => exact tagged.put found rfl
  | @issue _ client connection found line rest =>
      refine (tagged.exchange
        (traffic.unposted ++ [⟨connection.id, client, connection.nextSeqIssue⟩]) _ _ ?_
        (fun _ => .inl) tagged.filled).put found ?_
      · intro ticket member
        simp only [List.mem_append, List.mem_singleton] at member
        rcases member with (before | rfl) | before
        · exact .inl (List.mem_append_left _ before)
        · exact .inr ⟨_, found, rfl⟩
        · exact .inl (List.mem_append_right _ before)
      · rfl
  | post result waits own filled =>
      have asked : result.ticket ∈ traffic.outstanding := by
        simp [Traffic.outstanding, waits, own]
      apply tagged.exchange _ _ _
      · intro ticket member
        simp only [List.map_append, List.map_cons, List.map_nil, List.mem_append,
          List.mem_singleton] at member
        left
        rcases member with (before | before) | before | rfl
        · simp [Traffic.outstanding, waits, before]
        · simp [Traffic.outstanding, waits, before]
        · exact List.mem_append_right _ before
        · exact asked
      · intro other member
        rcases List.mem_append.mp member with before | last
        · exact .inl before
        · exact .inr (List.mem_singleton.mp last ▸ asked)
      · refine List.forall_mem_append.mpr ⟨tagged.filled, ?_⟩
        simpa using filled
  | @place _ result rest connection first found =>
      refine (tagged.exchange traffic.unposted rest _ ?_ (fun _ => .inl) ?_).put found ?_
      · intro ticket member
        simp only [Traffic.outstanding, first, List.map_cons, List.mem_append, List.mem_cons]
          at member ⊢
        exact .inl (member.imp_right .inr)
      · exact fun result member => tagged.filled result (by simp [first, member])
      · rfl
  | drop first =>
      refine tagged.exchange _ _ _ ?_ (fun _ => .inl) ?_
      · intro ticket member
        simp only [Traffic.outstanding, first, List.map_cons, List.mem_append, List.mem_cons]
          at member ⊢
        exact .inl (member.imp_right .inr)
      · exact fun result member => tagged.filled result (by simp [first, member])

end Tagged

-----------------------------------------------------------------------------------------
-- A connection whose handle was free of older requests
-----------------------------------------------------------------------------------------

/-- The traffic of one connection: whatever is addressed to its handle is its own, every
request has its one response posted or still waits for it, and the responses that have
arrived are in its buffers and its output as they should be.
-/
structure Orderly (client : Socket) (connection : Connection) (traffic : Traffic) : Prop where
  own
    : ∀ ticket ∈ traffic.outstanding,
        ticket.clientFd = client → ticket.origin = connection.id
  placed : ∀ origin ∈ connection.placed, origin = connection.id
  counted
    : ∀ number,
        traffic.unposted.count ⟨connection.id, client, number⟩
          + (responsesTo connection.id number traffic.posted).length
          = if number < connection.nextSeqIssue then 1 else 0
  carried
    : ∃ arrived out,
        connection.Carries arrived connection.sent out
        ∧ (connection.buffer out).Settled
        ∧ ∀ number,
            responsesTo connection.id number traffic.posted
              = (arrived number).toList ++ responsesTo connection.id number traffic.undelivered

namespace Orderly

variable {traffic : Traffic} {client : Socket} {connection : Connection}

/-- A connection that has just been accepted. -/
theorem accept (tagged : traffic.Tagged) (free : traffic.NoneOutstanding client) (ip : Bytes)
    (connections : Finmap fun _ : Socket => Connection)
    : Orderly client { clientIp := ip, id := traffic.accepted }
        { traffic with connections := connections, accepted := traffic.accepted + 1 } := by
  have none {results : List TaskResult}
      (old : ∀ result ∈ results, result.origin < traffic.accepted) (number : ℕ)
      : responsesTo traffic.accepted number results = [] := by
    refine List.map_eq_nil_iff.mpr (List.filter_eq_nil_iff.mpr ?_)
    intro result member
    have before := old result member
    simp only [decide_eq_true_eq, not_and]
    omega
  have posted := none tagged.posted
  have undelivered (number : ℕ) : responsesTo traffic.accepted number traffic.undelivered = [] := by
    refine none ?_ number
    intro result member
    exact tagged.outstanding result.ticket
      (List.mem_append_right _ (List.mem_map_of_mem member))
  constructor
  case own => exact fun ticket member same => absurd same (free ticket member)
  case placed => simp
  case counted =>
    intro number
    have absent : (⟨traffic.accepted, client, number⟩ : Ticket) ∉ traffic.unposted := by
      intro member
      exact lt_irrefl _ (tagged.outstanding _ (List.mem_append_left _ member))
    simp [posted, List.count_eq_zero_of_not_mem absent]
  case carried =>
    refine ⟨_, [], ConnectionState.carries_new ip, Finmap.lookup_empty _, ?_⟩
    intro number
    simp [posted, undelivered]

/-- A turn that leaves the requests and the results alone. -/
theorem put (orderly : traffic.Orderly client connection) {changed : Connection}
    (same : changed.id = connection.id) (placed : changed.placed = connection.placed)
    (issued : changed.nextSeqIssue = connection.nextSeqIssue)
    (carries
      : ∀ arrived out,
          connection.Carries arrived connection.sent out
          → (connection.buffer out).Settled
          → changed.Carries arrived changed.sent out ∧ (changed.buffer out).Settled)
    (connections : Finmap fun _ : Socket => Connection)
    : Orderly client changed { traffic with connections := connections } := by
  obtain ⟨arrived, out, carried, settled, delivered⟩ := orderly.carried
  constructor
  case own => rw [same]; exact orderly.own
  case placed => rw [same, placed]; exact orderly.placed
  case counted => rw [same, issued]; exact orderly.counted
  case carried =>
    obtain ⟨carried, settled⟩ := carries arrived out carried settled
    exact ⟨arrived, out, carried, settled, by rw [same]; exact delivered⟩

/-- A connection issues one more request. -/
theorem issue (orderly : traffic.Orderly client connection) (line rest : Bytes)
    (connections : Finmap fun _ : Socket => Connection)
    : Orderly client
        { connection with
          toConnectionState := connection.toConnectionState.issue rest
          issued := connection.issued ++ [line] }
        { traffic with
          connections := connections
          unposted :=
            traffic.unposted ++ [⟨connection.id, client, connection.nextSeqIssue⟩] } := by
  constructor
  case own =>
    intro ticket member same
    simp only [outstanding, List.mem_append, List.mem_singleton] at member
    rcases member with (before | rfl) | before
    · exact orderly.own ticket (List.mem_append_left _ before) same
    · rfl
    · exact orderly.own ticket (List.mem_append_right _ before) same
  case placed => exact orderly.placed
  case counted =>
    intro number
    have counted := orderly.counted number
    simp only [List.count_append, List.count_singleton, beq_iff_eq, Ticket.mk.injEq, true_and,
      ConnectionState.issue]
    grind
  case carried =>
    obtain ⟨arrived, out, carried, settled, delivered⟩ := orderly.carried
    exact ⟨arrived, out, carried.issue rest, settled, delivered⟩

/-- Another connection issues a request. -/
theorem issueOther (orderly : traffic.Orderly client connection) {ticket : Ticket}
    (other : ticket.clientFd ≠ client) (connections : Finmap fun _ : Socket => Connection)
    : Orderly client connection
        { traffic with
          connections := connections
          unposted := traffic.unposted ++ [ticket] } := by
  refine { orderly with own := ?_, counted := ?_ }
  · intro asked member same
    simp only [outstanding, List.mem_append, List.mem_singleton] at member
    rcases member with (before | rfl) | before
    · exact orderly.own asked (List.mem_append_left _ before) same
    · exact absurd same other
    · exact orderly.own asked (List.mem_append_right _ before) same
  · intro number
    have different : ticket ≠ ⟨connection.id, client, number⟩ := by
      rintro rfl
      exact other rfl
    simpa [List.count_append, different] using orderly.counted number

/-- A result is posted; it is this connection's exactly if its request is. -/
theorem post (orderly : traffic.Orderly client connection) {front back : List Ticket}
    {result : TaskResult} (waits : traffic.unposted = front ++ result.ticket :: back)
    (home : result.origin = connection.id → result.clientFd = client)
    : Orderly client connection
        { traffic with
          unposted := front ++ back
          undelivered := traffic.undelivered ++ [result]
          posted := traffic.posted ++ [result] } := by
  constructor
  case own =>
    intro ticket member same
    refine orderly.own ticket ?_ same
    simp only [outstanding, waits, List.map_append, List.map_cons, List.map_nil,
      List.mem_append, List.mem_cons, List.not_mem_nil, or_false] at member ⊢
    tauto
  case placed => exact orderly.placed
  case counted =>
    intro number
    have counted := orderly.counted number
    simp only [waits, List.count_append, List.count_cons] at counted
    simp only [responsesTo_append, List.count_append, List.length_append]
    by_cases own : result.origin = connection.id ∧ result.sequenceId = number
    · obtain ⟨origin, same⟩ := own
      have ticket : result.ticket = ⟨connection.id, client, number⟩ := by
        rw [TaskResult.ticket, origin, home origin, same]
      simp only [ticket, beq_self_eq_true, if_true] at counted
      simp only [responsesTo_own origin same, List.length_singleton]
      omega
    · have ticket : result.ticket ≠ ⟨connection.id, client, number⟩ := by
        intro same
        simp only [TaskResult.ticket, Ticket.mk.injEq] at same
        exact own ⟨same.1, same.2.2⟩
      simp only [beq_iff_eq, ticket, if_false] at counted
      simp only [responsesTo_other own, List.length_nil]
      omega
  case carried =>
    obtain ⟨arrived, out, carried, settled, delivered⟩ := orderly.carried
    refine ⟨arrived, out, carried, settled, ?_⟩
    intro number
    rw [responsesTo_append, responsesTo_append, delivered, List.append_assoc]

theorem mem_outstanding_of_rest {result : TaskResult} {rest : List TaskResult}
    (first : traffic.undelivered = result :: rest) {ticket : Ticket}
    {connections : Finmap fun _ : Socket => Connection}
    (member
      : ticket
        ∈ outstanding { traffic with connections := connections, undelivered := rest })
    : ticket ∈ traffic.outstanding := by
  simp only [outstanding, first, List.map_cons, List.mem_append, List.mem_cons] at member ⊢
  exact member.imp_right .inr

/-- The next result for a number is the only one for it, so it has not arrived before. -/
theorem fresh (orderly : traffic.Orderly client connection) {result : TaskResult}
    {rest : List TaskResult} (first : traffic.undelivered = result :: rest)
    (own : result.origin = connection.id) {arrived : ℕ → Option Bytes}
    (delivered
      : ∀ number,
          responsesTo connection.id number traffic.posted
            = (arrived number).toList ++ responsesTo connection.id number traffic.undelivered)
    : arrived result.sequenceId = none ∧ result.sequenceId < connection.nextSeqIssue := by
  have counted := orderly.counted result.sequenceId
  have length := congrArg List.length (delivered result.sequenceId)
  rw [first, ← List.singleton_append, responsesTo_append, responsesTo_own own rfl,
    List.length_append, List.length_append, List.length_singleton] at length
  constructor
  · cases there : arrived result.sequenceId with
    | none => rfl
    | some response =>
        simp only [there, Option.toList_some, List.length_singleton] at length
        split at counted <;> omega
  · split at counted
    · assumption
    · omega

/-- A response that has arrived is the only one to its number. -/
theorem responsesTo_of_arrived (orderly : traffic.Orderly client connection)
    {arrived : ℕ → Option Bytes}
    (delivered
      : ∀ number,
          responsesTo connection.id number traffic.posted
            = (arrived number).toList ++ responsesTo connection.id number traffic.undelivered)
    {number : ℕ} {response : Bytes} (there : arrived number = some response)
    : responsesTo connection.id number traffic.posted = [response] := by
  have counted := orderly.counted number
  have posted := delivered number
  rw [there, Option.toList_some, List.singleton_append] at posted
  have only : responsesTo connection.id number traffic.undelivered = [] := by
    have length := congrArg List.length posted
    simp only [List.length_cons] at length
    exact List.eq_nil_of_length_eq_zero (by split at counted <;> omega)
  rw [posted, only]

/-- A result of this connection is placed in it. -/
theorem place (orderly : traffic.Orderly client connection) {result : TaskResult}
    {rest : List TaskResult} (first : traffic.undelivered = result :: rest)
    (filled : result.response ≠ []) (own : result.origin = connection.id)
    (connections : Finmap fun _ : Socket => Connection)
    : Orderly client
        { connection with
          toConnectionState := connection.toConnectionState.place result
          placed := connection.placed ++ [result.origin] }
        { traffic with connections := connections, undelivered := rest } := by
  obtain ⟨arrived, out, carried, settled, delivered⟩ := orderly.carried
  obtain ⟨fresh, issued⟩ := orderly.fresh first own delivered
  have here := delivered result.sequenceId
  rw [first, ← List.singleton_append, responsesTo_append, responsesTo_own own rfl] at here
  obtain ⟨flushed, placed, settled⟩ := carried.place fresh issued filled
  constructor
  case own =>
    exact fun ticket member same => orderly.own ticket (mem_outstanding_of_rest first member) same
  case placed =>
    refine List.forall_mem_append.mpr ⟨orderly.placed, ?_⟩
    simpa using own
  case counted =>
    intro number
    have counted := orderly.counted number
    rwa [← (ConnectionState.input_place result connection.toConnectionState).1] at counted
  case carried =>
    refine ⟨_, flushed, placed, settled, ?_⟩
    intro number
    by_cases same : number = result.sequenceId
    · subst number
      rw [Function.update_self, here, fresh]
      rfl
    · have other : ¬ (result.origin = connection.id ∧ result.sequenceId = number) :=
        fun both => same both.2.symm
      rw [Function.update_of_ne same]
      apply (delivered number).trans
      rw [first, ← List.singleton_append, responsesTo_append, responsesTo_other other]
      rfl

/-- A result of another connection is placed there or dropped. -/
theorem placeOther (orderly : traffic.Orderly client connection) {result : TaskResult}
    {rest : List TaskResult} (first : traffic.undelivered = result :: rest)
    (other : result.origin ≠ connection.id)
    (connections : Finmap fun _ : Socket => Connection)
    : Orderly client connection
        { traffic with connections := connections, undelivered := rest } := by
  refine { orderly with own := ?_, carried := ?_ }
  · exact fun ticket member same => orderly.own ticket (mem_outstanding_of_rest first member) same
  · obtain ⟨arrived, out, carried, settled, delivered⟩ := orderly.carried
    refine ⟨arrived, out, carried, settled, ?_⟩
    intro number
    apply (delivered number).trans
    rw [first, ← List.singleton_append, responsesTo_append,
      responsesTo_other fun both => other both.1]
    rfl

end Orderly

/-- The traffic of a numbered connection, while it is open. -/
def OrderlyAt (id : ℕ) (traffic : Traffic) : Prop :=
  ∀ client connection,
    traffic.connections.lookup client = some connection
    → connection.id = id
    → traffic.Orderly client connection

namespace OrderlyAt

variable {id : ℕ} {traffic next : Traffic}

/-- What happens to the connection at one handle and to those at the others. -/
theorem of_insert {client : Socket} {changed : Connection}
    (moved : next.connections = traffic.connections.insert client changed)
    (here : changed.id = id → next.Orderly client changed)
    (others
      : ∀ other connection,
          other ≠ client
          → traffic.connections.lookup other = some connection
          → connection.id = id
          → next.Orderly other connection)
    : next.OrderlyAt id := by
  intro other connection found own
  rw [moved] at found
  rcases lookup_insert_cases found with ⟨rfl, rfl⟩ | ⟨different, known⟩
  · exact here own
  · exact others other connection different known own

/-- Every move keeps the traffic of the connection in order, by cases on the move. A handle
that gets the connection has to be free.
-/
theorem moves {opened : Option Socket} (orderly : traffic.OrderlyAt id)
    (tagged : traffic.Tagged)
    (free : traffic.accepted = id → ∀ client ∈ opened, traffic.NoneOutstanding client)
    (moved : traffic.Moves opened next)
    : next.OrderlyAt id := by
  cases moved with
  | stay => exact orderly
  | accept client ip closed =>
      apply of_insert rfl
      · exact fun own => .accept tagged (free own client rfl) ip _
      · intro other connection _ found own
        exact { orderly other connection found own with }
  | close client =>
      intro other connection found own
      exact { orderly other connection (lookup_of_lookup_erase found) own with }
  | read found readBuffer received =>
      apply of_insert rfl
      · intro own
        refine (orderly _ _ found own).put ?_ ?_ ?_ ?_ _
        · rfl
        · rfl
        · rfl
        · exact fun _ _ carries settled => ⟨{ carries with }, settled⟩
      · exact fun other connection _ found own => { orderly other connection found own with }
  | write found count =>
      apply of_insert rfl
      · intro own
        refine (orderly _ _ found own).put ?_ ?_ ?_ ?_ _
        · rfl
        · rfl
        · exact (ConnectionState.input_written count _).1
        · exact fun _ _ carries settled =>
            ⟨carries.written count, ConnectionState.Carries.settled_written count settled⟩
      · exact fun other connection _ found own => { orderly other connection found own with }
  | issue found line rest =>
      apply of_insert rfl
      · exact fun own => (orderly _ _ found own).issue line rest _
      · exact fun other connection different found own =>
          (orderly other connection found own).issueOther (Ne.symm different) _
  | post result waits own filled =>
      subst own
      intro client connection found same
      refine (orderly client connection found same).post waits (tagged.home found result.ticket ?_)
      simp [outstanding, waits]
  | @place _ result rest connection first found =>
      have asked : result.ticket ∈ traffic.outstanding := by simp [outstanding, first]
      apply of_insert rfl
      · intro same
        have here := orderly _ _ found same
        exact here.place first (tagged.filled result (by simp [first]))
          (here.own result.ticket asked rfl) _
      · intro other state different found own
        refine (orderly other state found own).placeOther first ?_ _
        exact fun origin => different (tagged.home found result.ticket asked origin).symm
  | @drop _ result rest first closed =>
      have asked : result.ticket ∈ traffic.outstanding := by simp [outstanding, first]
      intro client connection found same
      refine (orderly client connection found same).placeOther first ?_ _
      intro origin
      have home := tagged.home found result.ticket asked origin
      rw [← home] at found
      exact absurd (closed.symm.trans found) (by simp)

end OrderlyAt

end Traffic

-----------------------------------------------------------------------------------------
-- Runs of the server
-----------------------------------------------------------------------------------------

namespace Server

/-- If the connection with a number is accepted, its handle is free of older requests. -/
def AcceptsFree (id : ℕ) (server : Server) : Action → Prop
  | .accept client _ => server.accepted = id → server.traffic.NoneOutstanding client
  | _ => True

/-- Whatever handle `accept` returns, no result for it is outstanding. -/
def AcceptsFreeHandle (server : Server) : Action → Prop
  | .accept client _ => server.traffic.NoneOutstanding client
  | _ => True

theorem acceptsFree_of_handle {steps : List (Server × Action)}
    (free : TransitionSystem.Along AcceptsFreeHandle steps) (id : ℕ)
    : TransitionSystem.Along (AcceptsFree id) steps := by
  intro entry member
  have condition := free entry member
  obtain ⟨before, action⟩ := entry
  cases action with
  | accept handle ip => exact fun _ => condition
  | recv | readLine | process | write | hangup | drain | deliver | unpause | pop | execute
  | post | sweep => trivial

theorem tagged_start (threadCount : ℕ) (store : LoggedStore) (clock : Int)
    : (start threadCount store clock).traffic.Tagged := by
  constructor <;> simp [start, traffic, Traffic.outstanding, Position.inHand, Position.drained]

/-- A step keeps what holds of a numbered connection. -/
theorem orderlyAt_step {server next : Server} {action : Action} {id : ℕ}
    (known : server.traffic.Tagged ∧ server.traffic.OrderlyAt id)
    (free : server.AcceptsFree id action) (taken : server.step action = some next)
    : next.traffic.Tagged ∧ next.traffic.OrderlyAt id := by
  obtain ⟨tagged, orderly⟩ := known
  have moved := moves_of_takes (takes_of_step taken)
  refine ⟨tagged.moves moved, orderly.moves tagged ?_ moved⟩
  intro same client opened
  cases action with
  | accept handle ip =>
      obtain rfl := Option.some.inj opened
      exact free same
  | recv | readLine | process | write | hangup | drain | deliver | unpause | pop | execute
  | post | sweep => cases opened

/-- What holds in every run and for a numbered connection, step by step. -/
theorem orderlyAt_of_run {threadCount capacity : ℕ} {store : LoggedStore} {clock : Int} {id : ℕ}
    {steps : List (Server × Action)} {server : Server}
    (run : TransitionSystem.Run step (startWith threadCount capacity store clock) steps server)
    (free : TransitionSystem.Along (AcceptsFree id) steps)
    : server.traffic.Tagged ∧ server.traffic.OrderlyAt id := by
  refine run.invariant orderlyAt_step free ⟨tagged_start threadCount store clock, ?_⟩
  intro client connection found
  simp [startWith, start, traffic] at found

/-- The output of an orderly connection. -/
theorem output_of_orderly {traffic : Traffic} {client : Socket} {connection : Connection}
    (orderly : traffic.Orderly client connection)
    : (∀ number < connection.nextSeqExpected,
          ∃ response, responsesTo connection.id number traffic.posted = [response])
      ∧ connection.sent ++ connection.writeBuffer
        = ((List.range connection.nextSeqExpected).flatMap fun number =>
            responsesTo connection.id number traffic.posted).flatten := by
  obtain ⟨arrived, out, carried, settled, delivered⟩ := orderly.carried
  have before {number : ℕ} (less : number < connection.nextSeqExpected)
      : ∃ response, arrived number = some response :=
    Option.isSome_iff_exists.mp (carried.represents.arrived_of_lt less)
  refine ⟨fun number less => (before less).imp fun response there =>
    orderly.responsesTo_of_arrived delivered there, ?_⟩
  rw [carried.output]
  refine congrArg List.flatten ?_
  have flushed : out.map some = (List.range connection.nextSeqExpected).map arrived :=
    carried.represents.out
  have pure : out = (out.map some).flatMap Option.toList := by
    simp [List.flatMap_map]
  rw [pure, flushed, List.flatMap_map]
  apply List.flatMap_congr
  intro number member
  obtain ⟨response, there⟩ := before (List.mem_range.mp member)
  rw [there, orderly.responsesTo_of_arrived delivered there]
  rfl

/-- Once none of its requests is outstanding, an orderly connection has flushed all responses. -/
theorem complete_of_orderly {traffic : Traffic} {client : Socket} {connection : Connection}
    (orderly : traffic.Orderly client connection)
    (drained : ∀ ticket ∈ traffic.outstanding, ticket.origin ≠ connection.id)
    : connection.nextSeqExpected = connection.nextSeqIssue
      ∧ connection.outOfOrderBuf = ∅ := by
  obtain ⟨arrived, out, carried, settled, delivered⟩ := orderly.carried
  apply carried.represents.complete settled
  intro number
  have counted := orderly.counted number
  have posted := congrArg List.length (delivered number)
  have absent : (⟨connection.id, client, number⟩ : Ticket) ∉ traffic.unposted := by
    intro member
    exact drained _ (List.mem_append_left _ member) rfl
  have none : responsesTo connection.id number traffic.undelivered = [] := by
    refine List.map_eq_nil_iff.mpr (List.filter_eq_nil_iff.mpr ?_)
    intro result member
    have other := drained result.ticket
      (List.mem_append_right _ (List.mem_map_of_mem member))
    simpa [TaskResult.ticket] using fun own => absurd own other
  rw [List.count_eq_zero_of_not_mem absent, posted, none, List.append_nil, Nat.zero_add]
    at counted
  cases there : arrived number with
  | none => simpa [there] using counted
  | some response => simpa [there] using counted

/-- On a connection whose handle was free of older requests when it was accepted, the bytes
that were sent and those in the write buffer are the responses to its requests in their
order, each once; there is something pending if there is something to write, and once no
request is outstanding, all have been answered.
-/
theorem output_in_order (threadCount : ℕ) (store : LoggedStore) (clock : Int) (id : ℕ)
    {steps : List (Server × Action)} {server : Server}
    (run : TransitionSystem.Run step (start threadCount store clock) steps server)
    (free : TransitionSystem.Along (AcceptsFree id) steps) (client : Socket)
    {connection : Connection} (found : server.connections.lookup client = some connection)
    (same : connection.id = id)
    : (∀ number < connection.nextSeqExpected,
          ∃ response, responsesTo id number server.pool.posted = [response])
      ∧ connection.sent ++ connection.writeBuffer
        = ((List.range connection.nextSeqExpected).flatMap fun number =>
            responsesTo id number server.pool.posted).flatten
      ∧ (connection.writePending = true ↔ connection.writeBuffer ≠ [])
      ∧ ((∀ ticket ∈ server.traffic.outstanding, ticket.origin ≠ id)
        → connection.nextSeqExpected = connection.nextSeqIssue
          ∧ connection.outOfOrderBuf = ∅) := by
  subst same
  have orderly := (orderlyAt_of_run run free).2 client connection found rfl
  obtain ⟨each, output⟩ := output_of_orderly orderly
  obtain ⟨arrived, out, carried, -, -⟩ := orderly.carried
  exact ⟨each, output, carried.pending, complete_of_orderly orderly⟩

/-- As long as `accept` returns no handle for which a result is outstanding, everything
placed in a connection comes from its own requests: what it has written are responses to
requests of its own, and so is what waits in its buffer.
-/
theorem nothing_crosses (threadCount : ℕ) (store : LoggedStore) (clock : Int)
    {steps : List (Server × Action)} {server : Server}
    (run : TransitionSystem.Run step (start threadCount store clock) steps server)
    (free : TransitionSystem.Along AcceptsFreeHandle steps) (client : Socket)
    {connection : Connection} (found : server.connections.lookup client = some connection)
    : (∀ origin ∈ connection.placed, origin = connection.id)
      ∧ connection.sent ++ connection.writeBuffer
        = ((List.range connection.nextSeqExpected).flatMap fun number =>
            responsesTo connection.id number server.pool.posted).flatten
      ∧ ∀ number response,
          connection.outOfOrderBuf.lookup number = some response
          → response ∈ responsesTo connection.id number server.pool.posted := by
  have orderly :=
    (orderlyAt_of_run run (acceptsFree_of_handle free _)).2 client connection found rfl
  refine ⟨orderly.placed, (output_of_orderly orderly).2, ?_⟩
  intro number response held
  obtain ⟨arrived, out, carried, settled, delivered⟩ := orderly.carried
  have there : arrived number = some response := carried.represents.arrived_of_held held
  rw [show server.pool.posted = server.traffic.posted from rfl, delivered number, there]
  simp

-----------------------------------------------------------------------------------------
-- A handle that is used again
-----------------------------------------------------------------------------------------

/-- A run that accepts its only connection while nothing is outstanding. -/
theorem acceptsFreeHandle_of_first {first : Server} {action : Action}
    {rest : List (Server × Action)} (empty : first.traffic.outstanding = [])
    (others : (rest.all fun entry => entry.2.opened.isNone) = true)
    : TransitionSystem.Along AcceptsFreeHandle ((first, action) :: rest) := by
  refine List.forall_mem_cons.mpr ⟨?_, ?_⟩
  · cases action with
    | accept handle ip =>
        intro ticket member
        simp [empty] at member
    | recv | readLine | process | write | hangup | drain | deliver | unpause | pop | execute
    | post | sweep => trivial
  · intro entry member
    have other := List.all_eq_true.mp others entry member
    obtain ⟨before, action⟩ := entry
    cases action with
    | accept => cases other
    | recv | readLine | process | write | hangup | drain | deliver | unpause | pop | execute
    | post | sweep => trivial

/-- A client asks for a key on a connection with handle 5, and a worker executes that. -/
def asked : List Action :=
  [.accept 5 [], .recv 5 (some (ascii "GET a\n")), .readLine, .process, .readLine, .pop 0,
    .execute 0 0 .none]

theorem output_in_order_asked
    : ∃ steps server connection,
        TransitionSystem.Run step (start 1 (.empty 1024 0) 0) steps server
        ∧ server.connections.lookup 5 = some connection
        ∧ connection.sent ++ connection.writeBuffer = nullReply := by
  have traced
      : TransitionSystem.trace step (start 1 (.empty 1024 0) 0)
          (asked ++ [.post 0, .drain, .deliver]) = some _ := rfl
  have run := TransitionSystem.run_of_trace traced
  have output := output_in_order 1 (.empty 1024 0) 0 0 run
    (acceptsFree_of_handle (acceptsFreeHandle_of_first rfl rfl) 0) 5 rfl rfl
  exact ⟨_, _, _, run, rfl, output.2.1.trans rfl⟩

theorem nothing_crosses_asked
    : ∃ steps server connection,
        TransitionSystem.Run step (start 1 (.empty 1024 0) 0) steps server
        ∧ server.connections.lookup 5 = some connection
        ∧ ∀ origin ∈ connection.placed, origin = connection.id := by
  have traced
      : TransitionSystem.trace step (start 1 (.empty 1024 0) 0)
          (asked ++ [.post 0, .drain, .deliver]) = some _ := rfl
  have run := TransitionSystem.run_of_trace traced
  have crossed := nothing_crosses 1 (.empty 1024 0) 0 run (acceptsFreeHandle_of_first rfl rfl)
    5 rfl
  exact ⟨_, _, _, run, rfl, crossed.1⟩

/-- The request is answered after its connection is gone and another one has its handle: the
response is written to the new connection, which has not asked for anything.
-/
theorem nothing_crosses_fails
    : ∃ steps server connection,
        TransitionSystem.Run step (start 1 (.empty 1024 0) 0) steps server
        ∧ server.connections.lookup 5 = some connection
        ∧ connection.id = 1
        ∧ connection.issued = []
        ∧ connection.placed = [0]
        ∧ connection.writeBuffer = nullReply := by
  have traced
      : TransitionSystem.trace step (start 1 (.empty 1024 0) 0)
          (asked ++ [.recv 5 none, .accept 5 [], .post 0, .drain, .deliver]) = some _ := rfl
  exact ⟨_, _, _, TransitionSystem.run_of_trace traced, rfl, rfl, rfl, rfl, rfl⟩

end Server

end InMemoryDB
