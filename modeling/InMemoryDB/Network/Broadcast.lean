import InMemoryDB.Network.Publication
import InMemoryDB.Network.Server

/-! The broker with several threads: publishers share its lock and go on side by side, every other
call has it to itself. What a client reads is what was published for it.
-/

namespace InMemoryDB

/-- A call of `publish` in its loop: the sockets that are still to come, and the deliveries that it
has counted.
-/
structure Publishing where
  publisher : ℕ
  channel : Bytes
  message : Bytes
  rest : List Socket
  delivered : ℕ := 0

namespace Publishing

def formatted (publishing : Publishing) : Bytes :=
  PubSubBroker.formatMessage publishing.channel publishing.message

/-- The message as a client reads it. -/
def reply (publishing : Publishing) : Resp.Reply :=
  .array [ascii "message", publishing.channel, publishing.message]

theorem encode_reply (publishing : Publishing)
    : Resp.encode publishing.reply = publishing.formatted :=
  (PubSubBroker.formatMessage_eq publishing.channel publishing.message).symm

end Publishing

/-- The broker with the calls of `publish` under way, the numbers that earlier ones have returned,
and for proofs the bytes that each client's socket has taken.
-/
structure Broadcast where
  broker : PubSubBroker := {}
  publishing : List Publishing := []
  returned : List ℕ := []
  received : Socket → Bytes := fun _ => []

/-- A turn of one thread. `publish` gets the order in which the set of the channel is gone through,
and `send` what the socket that comes next takes, if it does not fail.
-/
inductive Activity where
  | call (call : PubSubBroker.Call)
  | publish (publisher : ℕ) (channel message : Bytes) (order : List Socket)
  | send (publisher : ℕ) (taken : Option ℕ)
  | finish (publisher : ℕ)

namespace Activity

/-- The thread that takes a turn of `publish`. -/
def publisher : Activity → Option ℕ
  | .call _ => none
  | .publish publisher .. => some publisher
  | .send publisher _ => some publisher
  | .finish publisher => some publisher

/-- The turn subscribes the client to the channel. -/
def Starts (channel : Bytes) (client : Socket) : Activity → Prop
  | .call asked => asked.Starts channel client
  | .publish .. | .send .. | .finish .. => False

/-- The turn ends a subscription of the client to the channel, if there is one. -/
def Ends (channel : Bytes) (client : Socket) : Activity → Prop
  | .call asked => asked.Ends channel client
  | .publish .. | .send .. | .finish .. => False

end Activity

namespace Broadcast

/-- The call of a publisher that is under way, with those around it. -/
def find (publisher : ℕ) (session : Broadcast)
    : Option (List Publishing × Publishing × List Publishing) :=
  Server.extract (fun publishing => publishing.publisher = publisher) session.publishing

/-- One turn, if the thread can take it: publishers hold the lock together, the others alone. -/
def step (session : Broadcast) : Activity → Option Broadcast
  | .call call =>
      if session.publishing = [] then
        (session.broker.step call).map fun broker => { session with broker := broker }
      else none
  | .publish publisher channel message order =>
      if session.publishing.all fun other => other.publisher ≠ publisher then
        match session.broker.channels.lookup channel with
        | none => some { session with returned := session.returned ++ [0] }
        | some subscribers =>
            if order.Nodup ∧ order.toFinset = subscribers then
              some
                { session with
                  publishing := session.publishing ++ [⟨publisher, channel, message, order, 0⟩] }
            else none
      else none
  | .send publisher taken =>
      match session.find publisher with
      | none => none
      | some (front, publishing, back) =>
          match publishing.rest with
          | [] => none
          | sock :: rest =>
              if taken.all fun count => (count : ℤ) ≤ castInt publishing.formatted.length then
                some
                  (match taken with
                  | none =>
                      { session with
                        publishing := front ++ { publishing with rest := rest } :: back }
                  | some count =>
                      { session with
                        publishing :=
                          front
                            ++ { publishing with
                              rest := rest
                              delivered := publishing.delivered + 1 } :: back
                        received :=
                          Function.update session.received sock
                            (session.received sock ++ publishing.formatted.take count) })
              else none
  | .finish publisher =>
      match session.find publisher with
      | none => none
      | some (front, publishing, back) =>
          if publishing.rest = [] then
            some
              { session with
                publishing := front ++ back
                returned := session.returned ++ [publishing.delivered] }
          else none

/-- All that a turn can do. -/
inductive Takes (session : Broadcast) : Activity → Broadcast → Prop
  | call {call broker} (alone : session.publishing = [])
    (moved : session.broker.step call = some broker)
    : Takes session (.call call) { session with broker := broker }
  | unheard {publisher channel message order} (nobody : session.broker.subscribers channel = ∅)
    : Takes session (.publish publisher channel message order)
        { session with returned := session.returned ++ [0] }
  | publish {publisher channel message order}
    (free : ∀ other ∈ session.publishing, other.publisher ≠ publisher) (once : order.Nodup)
    (all : order.toFinset = session.broker.subscribers channel)
    : Takes session (.publish publisher channel message order)
        { session with
          publishing := session.publishing ++ [⟨publisher, channel, message, order, 0⟩] }
  | lost {publisher front publishing back sock rest}
    (found : session.find publisher = some (front, publishing, back))
    (next : publishing.rest = sock :: rest)
    : Takes session (.send publisher none)
        { session with publishing := front ++ { publishing with rest := rest } :: back }
  | took {publisher front publishing back sock rest count}
    (found : session.find publisher = some (front, publishing, back))
    (next : publishing.rest = sock :: rest)
    : Takes session (.send publisher (some count))
        { session with
          publishing :=
            front
              ++ { publishing with rest := rest, delivered := publishing.delivered + 1 } :: back
          received :=
            Function.update session.received sock
              (session.received sock ++ publishing.formatted.take count) }
  | finish {publisher front publishing back}
    (found : session.find publisher = some (front, publishing, back))
    (done : publishing.rest = [])
    : Takes session (.finish publisher)
        { session with
          publishing := front ++ back
          returned := session.returned ++ [publishing.delivered] }

/-- A step is one of these, by cases on the activity. -/
theorem takes_of_step {session next : Broadcast} {activity : Activity}
    (taken : session.step activity = some next)
    : session.Takes activity next := by
  cases activity with
  | call call =>
      simp only [step] at taken
      split at taken
      · rename_i alone
        obtain ⟨broker, moved, rfl⟩ := Option.map_eq_some_iff.mp taken
        exact .call alone moved
      · cases taken
  | publish publisher channel message order =>
      simp only [step] at taken
      split at taken
      · rename_i free
        split at taken
        · rename_i absent
          obtain rfl := Option.some.inj taken
          refine .unheard ?_
          rw [PubSubBroker.subscribers, absent]
          rfl
        · rename_i subscribers found
          split at taken
          · rename_i shown
            obtain rfl := Option.some.inj taken
            have free : ∀ other ∈ session.publishing, other.publisher ≠ publisher := by
              simpa using free
            refine .publish free shown.1 (shown.2.trans ?_)
            rw [PubSubBroker.subscribers, found]
            rfl
          · cases taken
      · cases taken
  | send publisher count =>
      simp only [step] at taken
      split at taken
      · cases taken
      · rename_i front publishing back found
        split at taken
        · cases taken
        · rename_i sock rest more
          split at taken
          · cases count with
            | none =>
                obtain rfl := Option.some.inj taken
                exact .lost found more
            | some count =>
                obtain rfl := Option.some.inj taken
                exact .took found more
          · cases taken
  | finish publisher =>
      simp only [step] at taken
      split at taken
      · cases taken
      · rename_i front publishing back found
        split at taken
        · rename_i done
          obtain rfl := Option.some.inj taken
          exact .finish found done
        · cases taken

-----------------------------------------------------------------------------------------
-- The messages of a client
-----------------------------------------------------------------------------------------

/-- The message that a publisher sends next, if it is for the client. -/
def upcoming (publisher : ℕ) (client : Socket) (session : Broadcast) : Option Resp.Reply :=
  (session.find publisher).bind fun cut =>
    if cut.2.1.rest.head? = some client then some cut.2.1.reply else none

/-- What has been sent to a client in a run. -/
def sent (client : Socket) (steps : List (Broadcast × Activity)) : List Resp.Reply :=
  steps.filterMap fun entry =>
    match entry.2 with
    | .send publisher (some _) => entry.1.upcoming publisher client
    | _ => none

/-- What its socket has failed to take. -/
def failed (client : Socket) (steps : List (Broadcast × Activity)) : List Resp.Reply :=
  steps.filterMap fun entry =>
    match entry.2 with
    | .send publisher none => entry.1.upcoming publisher client
    | _ => none

/-- What has been published on channels that the client was subscribed to at that time. -/
def owed (client : Socket) (steps : List (Broadcast × Activity)) : List Resp.Reply :=
  steps.filterMap fun entry =>
    match entry.2 with
    | .publish _ channel message _ =>
        if client ∈ entry.1.broker.subscribers channel then
          some (.array [ascii "message", channel, message])
        else none
    | _ => none

end Broadcast

/-- The message of a call that has not yet come to the client. -/
def Publishing.due (client : Socket) (publishing : Publishing) : List Resp.Reply :=
  if client ∈ publishing.rest then [publishing.reply] else []

namespace Broadcast

/-- What calls have still to send to a client. -/
def waiting (client : Socket) (publishing : List Publishing) : List Resp.Reply :=
  publishing.flatMap (Publishing.due client)

variable {session next : Broadcast} {activity : Activity} {client : Socket}
  {steps : List (Broadcast × Activity)}

theorem sent_append (front back : List (Broadcast × Activity))
    : sent client (front ++ back) = sent client front ++ sent client back :=
  List.filterMap_append

theorem failed_append (front back : List (Broadcast × Activity))
    : failed client (front ++ back) = failed client front ++ failed client back :=
  List.filterMap_append

theorem owed_append (front back : List (Broadcast × Activity))
    : owed client (front ++ back) = owed client front ++ owed client back :=
  List.filterMap_append

theorem find_eq_some {publisher : ℕ} {front back : List Publishing} {publishing : Publishing}
    (found : session.find publisher = some (front, publishing, back))
    : session.publishing = front ++ publishing :: back :=
  (Server.extract_eq_some found).1

theorem own_of_find {publisher : ℕ} {front back : List Publishing} {publishing : Publishing}
    (found : session.find publisher = some (front, publishing, back))
    : publishing.publisher = publisher :=
  of_decide_eq_true (Server.extract_eq_some found).2

theorem mem_of_find {publisher : ℕ} {front back : List Publishing} {publishing : Publishing}
    (found : session.find publisher = some (front, publishing, back))
    : publishing ∈ session.publishing :=
  find_eq_some found ▸ List.mem_append_right _ List.mem_cons_self

/-- A socket that comes next does not come again. -/
theorem due_of_next {publisher : ℕ} {front back : List Publishing} {publishing : Publishing}
    {sock : Socket} {rest : List Socket} (delivered : ℕ)
    (found : session.find publisher = some (front, publishing, back))
    (next : publishing.rest = sock :: rest) (once : publishing.rest.Nodup)
    : publishing.due client
      = (session.upcoming publisher client).toList
        ++ Publishing.due client { publishing with rest := rest, delivered := delivered } := by
  rw [next, List.nodup_cons] at once
  simp only [upcoming, found, Option.bind_some, Publishing.due, next, List.head?_cons,
    Option.some.injEq, List.mem_cons]
  by_cases own : sock = client
  · obtain rfl := own
    simp [once.1]
  · simp [own, Ne.symm own, Publishing.reply]

-----------------------------------------------------------------------------------------
-- What a turn adds
-----------------------------------------------------------------------------------------

/-- What a turn sends, fails to send or leaves to be sent was still to be sent before it, or is owed
from then on.
-/
def Balances (client : Socket) (session : Broadcast) (activity : Activity) (next : Broadcast)
    : Prop :=
  (sent client [(session, activity)] ++ failed client [(session, activity)]
      ++ waiting client next.publishing).Perm
    (waiting client session.publishing ++ owed client [(session, activity)])

/-- A call owes its message to the sockets that it goes through. -/
theorem owed_publish {publisher : ℕ} {channel message : Bytes} {order : List Socket}
    (all : order.toFinset = session.broker.subscribers channel)
    : owed client [(session, .publish publisher channel message order)]
      = Publishing.due client ⟨publisher, channel, message, order, 0⟩ := by
  have member : client ∈ session.broker.subscribers channel ↔ client ∈ order := by
    rw [← all, List.mem_toFinset]
  by_cases own : client ∈ order
  · simp [owed, Publishing.due, member, own, Publishing.reply]
  · simp [owed, Publishing.due, member, own]

/-- A send takes the next socket of its call. -/
theorem balances_send {publisher : ℕ} {front back : List Publishing} {publishing : Publishing}
    {sock : Socket} {rest : List Socket} {taken : Option ℕ} (delivered : ℕ)
    (found : session.find publisher = some (front, publishing, back))
    (first : publishing.rest = sock :: rest) (once : publishing.rest.Nodup)
    (moved
      : next.publishing
        = front ++ { publishing with rest := rest, delivered := delivered } :: back)
    : Balances client session (.send publisher taken) next := by
  have due := @due_of_next _ client _ _ _ _ _ _ delivered found first once
  have silent : owed client [(session, .send publisher taken)] = [] := rfl
  have given
      : sent client [(session, .send publisher taken)]
          ++ failed client [(session, .send publisher taken)]
        = (session.upcoming publisher client).toList := by
    cases taken <;>
      simp only [sent, failed, List.filterMap_cons, List.filterMap_nil] <;>
      cases session.upcoming publisher client <;>
      rfl
  rw [Balances, given, silent, List.append_nil, waiting, waiting, moved, find_eq_some found]
  simp only [List.flatMap_append, List.flatMap_cons, due, List.append_assoc]
  exact List.perm_append_comm_assoc _ _ _

/-- By cases on the turn. -/
theorem Takes.balances (taken : session.Takes activity next)
    (once : ∀ publishing ∈ session.publishing, publishing.rest.Nodup)
    : Balances client session activity next := by
  cases taken with
  | @call call broker alone moved =>
      have silent : owed client [(session, .call call)] = [] := rfl
      rw [Balances, silent, List.append_nil]
      exact .refl _
  | @unheard publisher channel message order nobody =>
      have nothing : owed client [(session, .publish publisher channel message order)] = [] := by
        simp [owed, nobody]
      rw [Balances, nothing, List.append_nil]
      exact .refl _
  | @publish publisher channel message order free single all =>
      have added := @owed_publish _ client publisher channel message order all
      rw [Balances, added, waiting, waiting, List.flatMap_append, List.flatMap_singleton]
      exact .refl _
  | lost found first => exact balances_send _ found first (once _ (mem_of_find found)) (by rfl)
  | took found first => exact balances_send _ found first (once _ (mem_of_find found)) (by rfl)
  | @finish publisher front publishing back found done =>
      have nothing : publishing.due client = [] := by simp [Publishing.due, done]
      have silent : owed client [(session, .finish publisher)] = [] := rfl
      rw [Balances, silent, List.append_nil, waiting, waiting, find_eq_some found]
      simp only [List.flatMap_append, List.flatMap_cons, nothing, List.nil_append]
      exact .refl _

/-- No call has a socket twice, by cases on the turn. -/
theorem Takes.once (taken : session.Takes activity next)
    (once : ∀ publishing ∈ session.publishing, publishing.rest.Nodup)
    : ∀ publishing ∈ next.publishing, publishing.rest.Nodup := by
  have turn {publisher : ℕ} {front back : List Publishing} {publishing : Publishing}
      {sock : Socket} {rest : List Socket} (delivered : ℕ)
      (found : session.find publisher = some (front, publishing, back))
      (first : publishing.rest = sock :: rest)
      : ∀ other ∈ front ++ { publishing with rest := rest, delivered := delivered } :: back,
          other.rest.Nodup := by
    rw [find_eq_some found] at once
    obtain ⟨before, here, behind⟩ := List.forall_mem_append.mp once |>.imp_right
      List.forall_mem_cons.mp
    rw [first, List.nodup_cons] at here
    exact List.forall_mem_append.mpr ⟨before, List.forall_mem_cons.mpr ⟨here.2, behind⟩⟩
  cases taken with
  | call | unheard => exact once
  | publish _ single =>
      exact List.forall_mem_append.mpr ⟨once, List.forall_mem_singleton.mpr single⟩
  | lost found first => exact turn _ found first
  | took found first => exact turn _ found first
  | finish found =>
      rw [find_eq_some found] at once
      obtain ⟨before, -, behind⟩ := List.forall_mem_append.mp once |>.imp_right
        List.forall_mem_cons.mp
      exact List.forall_mem_append.mpr ⟨before, behind⟩

-----------------------------------------------------------------------------------------
-- The account of a run
-----------------------------------------------------------------------------------------

/-- Every message that a client is owed has been sent, has failed or is still to come, once; and no
call under way has a socket twice.
-/
structure Accounted (steps : List (Broadcast × Activity)) (session : Broadcast) : Prop where
  once : ∀ publishing ∈ session.publishing, publishing.rest.Nodup
  account
    : ∀ client,
        (sent client steps ++ failed client steps ++ waiting client session.publishing).Perm
          (owed client steps)

/-- By induction on the run. -/
theorem accounted_of_run (run : TransitionSystem.Run step {} steps session)
    : Accounted steps session := by
  induction run with
  | nil => exact ⟨by simp, fun client => .nil⟩
  | @snoc steps session activity next _ taken ih =>
      have takes := takes_of_step taken
      refine ⟨takes.once ih.once, ?_⟩
      intro client
      have balances : Balances client session activity next := takes.balances ih.once
      rw [sent_append, failed_append, owed_append]
      have before := List.perm_iff_count.mp (ih.account client)
      have turn := List.perm_iff_count.mp balances
      refine List.perm_iff_count.mpr fun reply => ?_
      have before := before reply
      have turn := turn reply
      simp only [List.count_append] at before turn ⊢
      omega

-----------------------------------------------------------------------------------------
-- One publisher
-----------------------------------------------------------------------------------------

/-- The turns of one publisher in a run. -/
def turns (publisher : ℕ) (steps : List (Broadcast × Activity)) : List (Broadcast × Activity) :=
  steps.filter fun entry => entry.2.publisher = some publisher

/-- The calls that a publisher has under way. -/
def calls (publisher : ℕ) (publishing : List Publishing) : List Publishing :=
  publishing.filter fun publishing => publishing.publisher = publisher

/-- Every thread is in one call at most. -/
def Single (session : Broadcast) : Prop :=
  (session.publishing.map Publishing.publisher).Nodup

theorem turns_append (publisher : ℕ) (front back : List (Broadcast × Activity))
    : turns publisher (front ++ back) = turns publisher front ++ turns publisher back :=
  List.filter_append front back

theorem calls_append (publisher : ℕ) (front back : List Publishing)
    : calls publisher (front ++ back) = calls publisher front ++ calls publisher back :=
  List.filter_append front back

/-- The call that is found is the only one of its thread. -/
theorem calls_of_find {publisher : ℕ} {front back : List Publishing} {publishing : Publishing}
    (found : session.find publisher = some (front, publishing, back)) (single : session.Single)
    : calls publisher front = [] ∧ calls publisher back = [] := by
  obtain rfl := own_of_find found
  rw [Single, find_eq_some found, List.map_append, List.map_cons, List.nodup_middle,
    List.nodup_cons] at single
  have others := single.1
  refine ⟨List.filter_eq_nil_iff.mpr ?_, List.filter_eq_nil_iff.mpr ?_⟩
  · intro other member
    refine mt of_decide_eq_true fun same => others (List.mem_append_left _ ?_)
    exact List.mem_map.mpr ⟨other, member, same⟩
  · intro other member
    refine mt of_decide_eq_true fun same => others (List.mem_append_right _ ?_)
    exact List.mem_map.mpr ⟨other, member, same⟩

/-- By cases on the turn. -/
theorem Takes.single (taken : session.Takes activity next) (single : session.Single)
    : next.Single := by
  cases taken with
  | call | unheard => exact single
  | @publish publisher channel message order free =>
      rw [Single, List.map_append]
      refine List.nodup_append.mpr ⟨single, List.nodup_singleton publisher, ?_⟩
      intro other member last here
      obtain ⟨publishing, among, rfl⟩ := List.mem_map.mp member
      exact List.mem_singleton.mp here ▸ free publishing among
  | lost found | took found =>
      rw [Single, find_eq_some found] at single
      simpa only [Single, List.map_append, List.map_cons] using single
  | finish found =>
      rw [Single, find_eq_some found] at single
      refine single.sublist (List.Sublist.map _ ?_)
      exact (List.sublist_cons_self _ _).append_left _

/-- What a turn of a publisher sends and leaves to be sent comes in the order in which it had it to
send.
-/
def Follows (publisher : ℕ) (client : Socket) (session : Broadcast) (activity : Activity)
    (next : Broadcast)
    : Prop :=
  (sent client (turns publisher [(session, activity)])
      ++ waiting client (calls publisher next.publishing)).Sublist
    (waiting client (calls publisher session.publishing)
      ++ owed client (turns publisher [(session, activity)]))

/-- A turn of another thread leaves the calls of this one. -/
theorem follows_of_ne {publisher : ℕ} (other : activity.publisher ≠ some publisher)
    (kept : calls publisher next.publishing = calls publisher session.publishing)
    : Follows publisher client session activity next := by
  have none : turns publisher [(session, activity)] = [] :=
    List.filter_eq_nil_iff.mpr (List.forall_mem_singleton.mpr (mt of_decide_eq_true other))
  rw [Follows, none, kept]
  exact (List.append_nil _).symm ▸ .refl _

theorem turns_of_eq {publisher : ℕ} (own : activity.publisher = some publisher)
    : turns publisher [(session, activity)] = [(session, activity)] :=
  List.filter_eq_self.mpr (List.forall_mem_singleton.mpr (decide_eq_true own))

theorem calls_cons_self {publisher : ℕ} {publishing : Publishing} {rest : List Publishing}
    (own : publishing.publisher = publisher)
    : calls publisher (publishing :: rest) = publishing :: calls publisher rest :=
  List.filter_cons_of_pos (decide_eq_true own)

theorem calls_cons_of_ne {publisher : ℕ} {publishing : Publishing} {rest : List Publishing}
    (other : publishing.publisher ≠ publisher)
    : calls publisher (publishing :: rest) = calls publisher rest :=
  List.filter_cons_of_neg (mt of_decide_eq_true other)

/-- Another call leaves the calls of this thread, by cases on the turn. -/
theorem Takes.calls_eq {publisher : ℕ} (taken : session.Takes activity next)
    (other : activity.publisher ≠ some publisher)
    : calls publisher next.publishing = calls publisher session.publishing := by
  have away {turning : ℕ} {front back : List Publishing} {publishing : Publishing}
      (found : session.find turning = some (front, publishing, back))
      (other : some turning ≠ some publisher)
      : publishing.publisher ≠ publisher :=
    fun same => other (congrArg some ((own_of_find found).symm.trans same))
  cases taken with
  | call | unheard => rfl
  | publish =>
      rw [calls_append, calls_cons_of_ne (fun same => other (congrArg some same))]
      exact List.append_nil _
  | lost found | took found =>
      have ours := away found other
      rw [find_eq_some found, calls_append, calls_append, calls_cons_of_ne ours,
        calls_cons_of_ne (by exact ours)]
  | finish found =>
      rw [find_eq_some found, calls_append, calls_append, calls_cons_of_ne (away found other)]

/-- A send takes the first socket of the one call of its thread. -/
theorem follows_send {publisher : ℕ} {front back : List Publishing} {publishing : Publishing}
    {sock : Socket} {rest : List Socket} {taken : Option ℕ} {delivered : ℕ}
    (found : session.find publisher = some (front, publishing, back))
    (first : publishing.rest = sock :: rest) (once : publishing.rest.Nodup)
    (single : session.Single)
    (moved
      : next.publishing
        = front ++ { publishing with rest := rest, delivered := delivered } :: back)
    : Follows publisher client session (.send publisher taken) next := by
  obtain ⟨before, behind⟩ := calls_of_find found single
  have own := own_of_find found
  have due := @due_of_next _ client _ _ _ _ _ _ delivered found first once
  have silent : owed client [(session, .send publisher taken)] = [] := rfl
  have given
      : (sent client [(session, .send publisher taken)]).Sublist
          (session.upcoming publisher client).toList := by
    cases taken with
    | none => exact List.nil_sublist _
    | some count =>
        simp only [sent, List.filterMap_cons, List.filterMap_nil]
        cases session.upcoming publisher client with
        | none => exact .refl _
        | some reply => exact .refl _
  have ours
      : calls publisher session.publishing = [publishing]
        ∧ calls publisher next.publishing
          = [{ publishing with rest := rest, delivered := delivered }] := by
    rw [moved, find_eq_some found, calls_append, calls_append, before, calls_cons_self own,
      calls_cons_self (by exact own), behind]
    exact ⟨rfl, rfl⟩
  rw [Follows, turns_of_eq rfl, ours.1, ours.2, silent, List.append_nil, waiting, waiting,
    List.flatMap_singleton, List.flatMap_singleton, due]
  exact given.append_right _

/-- By cases on the turn. -/
theorem Takes.follows {publisher : ℕ} (taken : session.Takes activity next)
    (single : session.Single) (once : ∀ publishing ∈ session.publishing, publishing.rest.Nodup)
    : Follows publisher client session activity next := by
  by_cases own : activity.publisher = some publisher
  · cases taken with
    | call => cases own
    | @unheard turning channel message order nobody =>
        have nothing : owed client [(session, .publish turning channel message order)] = [] := by
          simp [owed, nobody]
        rw [Follows, turns_of_eq own, nothing, List.append_nil]
        exact .refl _
    | @publish turning channel message order free all single =>
        obtain rfl := Option.some.inj own
        have before : calls turning session.publishing = [] :=
          List.filter_eq_nil_iff.mpr fun item member => mt of_decide_eq_true (free item member)
        have silent : sent client [(session, .publish turning channel message order)] = [] := rfl
        have alone
            : calls turning [⟨turning, channel, message, order, 0⟩]
              = [⟨turning, channel, message, order, 0⟩] :=
          calls_cons_self rfl
        rw [Follows, turns_of_eq own, @owed_publish _ client turning channel message order single,
          silent, calls_append, before, alone, waiting, List.nil_append, List.nil_append,
          List.flatMap_singleton]
        exact .refl _
    | lost found first =>
        obtain rfl := Option.some.inj own
        exact follows_send found first (once _ (mem_of_find found)) single (by rfl)
    | took found first =>
        obtain rfl := Option.some.inj own
        exact follows_send found first (once _ (mem_of_find found)) single (by rfl)
    | @finish turning front publishing back found done =>
        obtain rfl := Option.some.inj own
        obtain ⟨before, behind⟩ := calls_of_find found single
        rw [Follows, turns_of_eq own, calls_append, before, behind]
        exact List.nil_sublist _
  · exact follows_of_ne own (taken.calls_eq own)

-----------------------------------------------------------------------------------------
-- What is read
-----------------------------------------------------------------------------------------

/-- What the socket of the client takes is all that it is offered. -/
def Whole (client : Socket) (session : Broadcast) : Activity → Prop
  | .send publisher (some count) =>
      (session.find publisher).all fun cut =>
        cut.2.1.rest.head? = some client → count = cut.2.1.formatted.length
  | _ => True

instance (client : Socket) (session : Broadcast) (activity : Activity)
    : Decidable (Whole client session activity) := by
  unfold Whole
  split <;> infer_instance

/-- The bytes of a turn are those of the message that it sends, by cases on the turn. -/
theorem Takes.received_eq (taken : session.Takes activity next)
    (whole : Whole client session activity)
    : next.received client
      = session.received client ++ (sent client [(session, activity)]).flatMap Resp.encode := by
  cases taken with
  | call | unheard | publish | lost | finish => exact (List.append_nil _).symm
  | @took publisher front publishing back sock rest count found first =>
      rw [Whole, found, Option.all_some, decide_eq_true_eq, first] at whole
      have upcoming
          : session.upcoming publisher client
            = if sock = client then some publishing.reply else none := by
        simp only [upcoming, found, Option.bind_some, first, List.head?_cons, Option.some.injEq]
      by_cases own : sock = client
      · obtain rfl := own
        have all : publishing.formatted.take count = publishing.formatted :=
          List.take_of_length_le (whole rfl).ge
        simp [sent, upcoming, all, publishing.encode_reply]
      · simp [sent, upcoming, own, Function.update_of_ne (Ne.symm own)]

/-- By induction on the run. -/
theorem received_of_run (run : TransitionSystem.Run step {} steps session)
    (whole : TransitionSystem.Along (Whole client) steps)
    : session.received client = (sent client steps).flatMap Resp.encode := by
  induction run with
  | nil => rfl
  | snoc _ taken ih =>
      obtain ⟨earlier, last⟩ := TransitionSystem.along_snoc.mp whole
      rw [(takes_of_step taken).received_eq last, ih earlier, sent_append, List.flatMap_append]

/-- The messages of each publisher stay in their order, by induction on the run. -/
theorem follows_of_run (run : TransitionSystem.Run step {} steps session) (publisher : ℕ)
    (client : Socket)
    : session.Single
      ∧ (sent client (turns publisher steps)
          ++ waiting client (calls publisher session.publishing)).Sublist
        (owed client (turns publisher steps)) := by
  induction run with
  | nil => exact ⟨List.nodup_nil, .refl _⟩
  | @snoc steps session activity next earlier taken ih =>
      have takes := takes_of_step taken
      have once := (accounted_of_run earlier).once
      refine ⟨takes.single ih.1, ?_⟩
      have turn : Follows publisher client session activity next := takes.follows ih.1 once
      rw [turns_append, sent_append, owed_append, List.append_assoc]
      refine (turn.append_left _).trans ?_
      rw [← List.append_assoc]
      exact ih.2.append_right _

/-- Only calls of their own change who is subscribed, by cases on the turn. -/
theorem Takes.subscribed {channel : Bytes} (taken : session.Takes activity next)
    : client ∈ next.broker.subscribers channel
      ↔ activity.Starts channel client
        ∨ client ∈ session.broker.subscribers channel ∧ ¬ activity.Ends channel client := by
  cases taken with
  | call alone moved => exact PubSubBroker.mem_step moved
  | unheard | publish | lost | took | finish => simp [Activity.Starts, Activity.Ends]

/-- At every turn those are subscribed whose last subscription has not ended, by induction on the
run.
-/
theorem subscribed_of_run (run : TransitionSystem.Run step {} steps session) (channel : Bytes)
    (client : Socket)
    : TransitionSystem.AlongHistory
        (fun front before _ =>
          client ∈ before.broker.subscribers channel
          ↔ Switches.LastOn (Activity.Starts channel client) (Activity.Ends channel client)
              (front.map Prod.snd))
        steps := by
  induction run with
  | nil => simp [TransitionSystem.AlongHistory]
  | snoc earlier taken ih =>
      refine TransitionSystem.alongHistory_snoc.mpr ⟨ih, ?_⟩
      exact
        Switches.holds_iff_lastOn
          (fun session (pair : Bytes × Socket) => pair.2 ∈ session.broker.subscribers pair.1)
          (fun activity pair => activity.Starts pair.1 pair.2)
          (fun activity pair => activity.Ends pair.1 pair.2)
          (fun taken => (takes_of_step taken).subscribed) earlier (channel, client)
          (Finset.notMem_empty client)

theorem plain_of_mem_sent {reply : Resp.Reply} (given : reply ∈ sent client steps)
    : reply.Plain := by
  obtain ⟨⟨before, activity⟩, -, same⟩ := List.mem_filterMap.mp given
  cases activity with
  | call | publish | finish => cases same
  | send publisher taken =>
      cases taken with
      | none => cases same
      | some count =>
          obtain ⟨cut, -, own⟩ := Option.bind_eq_some_iff.mp same
          obtain ⟨-, shown⟩ := Option.ite_none_right_eq_some.mp own
          exact Option.some.inj shown ▸ trivial

/-- What a client gets in a run. A message is owed to it if it is published on a channel that the
client was subscribed to then, that is, if its last subscription had not ended.
-/
structure Delivers (client : Socket) (steps : List (Broadcast × Activity)) (session : Broadcast)
    : Prop where
  read : Resp.decode (session.received client) = some (sent client steps)
  account
    : (sent client steps ++ failed client steps ++ waiting client session.publishing).Perm
        (owed client steps)
  order
    : ∀ publisher,
        (sent client (turns publisher steps)
            ++ waiting client (calls publisher session.publishing)).Sublist
          (owed client (turns publisher steps))
  subscribed
    : ∀ channel,
        TransitionSystem.AlongHistory
          (fun front before _ =>
            client ∈ before.broker.subscribers channel
            ↔ Switches.LastOn (Activity.Starts channel client) (Activity.Ends channel client)
                (front.map Prod.snd))
          steps

/-- Whatever publishers go on side by side and whoever subscribes between, a client whose socket
takes what it is offered or fails reads whole messages: of those owed to it, each once, all that
have neither failed nor are still to come, and those of one publisher in their order.
-/
theorem delivers (run : TransitionSystem.Run step {} steps session)
    (whole : TransitionSystem.Along (Whole client) steps)
    : Delivers client steps session := by
  refine
    { read := ?_
      account := (accounted_of_run run).account client
      order := fun publisher => (follows_of_run run publisher client).2
      subscribed := fun channel => subscribed_of_run run channel client }
  rw [received_of_run run whole]
  exact Resp.decode_flatMap fun reply => plain_of_mem_sent

/-- Two calls that cross: the first message does not reach one of the clients, the second one
reaches both, and the third one comes after the other client has left.
-/
def crossing : List Activity :=
  [.call (.subscribe (ascii "news") 4), .call (.subscribe (ascii "news") 5),
    .publish 1 (ascii "news") (ascii "a") [4, 5], .publish 2 (ascii "news") (ascii "b") [5, 4],
    .send 2 (some 34), .send 2 (some 34), .send 1 (some 34), .send 1 none, .finish 1, .finish 2,
    .call (.unsubscribe (ascii "news") 5), .publish 2 (ascii "news") (ascii "c") [4],
    .send 2 (some 34)]

theorem delivers_crossing
    : ∃ (steps : List (Broadcast × Activity)) (session : Broadcast),
        steps.map Prod.snd = crossing
        ∧ Delivers 4 steps session
        ∧ sent 4 steps
          = (["b", "a", "c"].map fun text => .array [ascii "message", ascii "news", ascii text])
        ∧ Delivers 5 steps session
        ∧ sent 5 steps = [Resp.Reply.array [ascii "message", ascii "news", ascii "b"]] := by
  have traced : TransitionSystem.trace step {} crossing = some _ := rfl
  have run := TransitionSystem.run_of_trace traced
  exact ⟨_, _, rfl, delivers run (by decide +kernel), rfl, delivers run (by decide +kernel), rfl⟩

end Broadcast

end InMemoryDB
