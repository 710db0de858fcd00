import InMemoryDB.Library.Resp
import InMemoryDB.Network.PubSubBroker

/-! What a published message comes to: the frame that is sent to every subscriber, and how many
deliveries are counted.
-/

namespace InMemoryDB

/-- `static_cast<int>` of a size. -/
def castInt (size : ℕ) : ℤ := Int.bmod size (2 ^ 32)

theorem bmod_le_self (number modulus : ℕ) : Int.bmod number modulus ≤ number := by
  have below : (number : ℤ) % (modulus : ℤ) ≤ number := by
    rw [← Int.natCast_emod]
    exact Int.ofNat_le.mpr (Nat.mod_le number modulus)
  rw [Int.bmod_eq_emod]
  exact (Int.sub_le_self _ (Int.natCast_nonneg _)).trans below

theorem castInt_le (size : ℕ) : castInt size ≤ size := bmod_le_self size (2 ^ 32)

/-- What `send` returns that is offered a number of bytes: an error, or how many it took. -/
abbrev SendResult (offered : ℤ) := Option { taken : ℕ // (taken : ℤ) ≤ offered }

/-- What `publish` returns, and what each socket took. -/
structure Published where
  delivered : ℕ := 0
  handed : List (Socket × Bytes) := []

namespace PubSubBroker

def formatMessage (channel message : Bytes) : Bytes :=
  ascii "*3\r\n$7\r\nmessage\r\n$" ++ Decimal.print channel.length ++ ascii "\r\n" ++ channel
    ++ ascii "\r\n$" ++ Decimal.print message.length ++ ascii "\r\n" ++ message ++ ascii "\r\n"

/-- The loop over the sockets. -/
def publishTo (formatted : Bytes) (send : Socket → SendResult (castInt formatted.length))
    (published : Published)
    : List Socket → Published
  | [] => published
  | sock :: rest =>
      match send sock with
      | none => publishTo formatted send published rest
      | some taken =>
          publishTo formatted send
            { delivered := published.delivered + 1
              handed := published.handed ++ [(sock, formatted.take taken)] }
            rest

def publish (channel message : Bytes) (broker : PubSubBroker)
    (traversal : Traversal (broker.subscribers channel))
    (send : Socket → SendResult (castInt (formatMessage channel message).length))
    : Published :=
  match broker.channels.lookup channel with
  | none => {}
  | some _ => publishTo (formatMessage channel message) send {} traversal.order

-----------------------------------------------------------------------------------------
-- The frame
-----------------------------------------------------------------------------------------

/-- The frame is an array of three bulk strings, whatever bytes they are made of. -/
theorem formatMessage_eq (channel message : Bytes)
    : formatMessage channel message = Resp.encode (.array [ascii "message", channel, message]) := by
  have three : Decimal.print 3 = ascii "3" := by decide +kernel
  have seven : Decimal.print (ascii "message").length = ascii "7" := by decide +kernel
  rw [Resp.encode, List.length_cons, List.length_cons, List.length_singleton, three]
  simp only [List.flatMap_cons, List.flatMap_nil, Resp.encodeBulk, seven, List.append_nil]
  simp [formatMessage, ascii, Resp.crlf]

theorem decode_formatMessage (channel message : Bytes)
    : Resp.decode (formatMessage channel message)
      = some [.array [ascii "message", channel, message]] := by
  have plain : ∀ reply ∈ [Resp.Reply.array [ascii "message", channel, message]], reply.Plain :=
    List.forall_mem_singleton.mpr trivial
  have read := Resp.decode_flatMap plain
  rwa [List.flatMap_singleton, ← formatMessage_eq] at read

-----------------------------------------------------------------------------------------
-- The deliveries
-----------------------------------------------------------------------------------------

/-- The sends that are no errors are counted, in any order; by induction on the sockets. -/
theorem delivered_publishTo (formatted : Bytes)
    (send : Socket → SendResult (castInt formatted.length)) (published : Published)
    (order : List Socket)
    : (publishTo formatted send published order).delivered
      = published.delivered + order.countP fun client => (send client).isSome := by
  induction order generalizing published with
  | nil => rfl
  | cons sock rest ih =>
      rw [publishTo, List.countP_cons]
      split
      · rename_i failed
        rw [ih, failed]
        rfl
      · rename_i taken sent
        rw [ih, sent]
        simp only [Option.isSome_some, if_true]
        omega

/-- And each of these sockets has what it took; by induction on the sockets. -/
theorem mem_handed_publishTo {formatted : Bytes}
    {send : Socket → SendResult (castInt formatted.length)} {published : Published}
    {order : List Socket} {delivery : Socket × Bytes}
    : delivery ∈ (publishTo formatted send published order).handed
      ↔ delivery ∈ published.handed
        ∨ delivery.1 ∈ order
          ∧ ∃ taken, send delivery.1 = some taken ∧ delivery.2 = formatted.take taken := by
  induction order generalizing published with
  | nil => simp [publishTo]
  | cons sock rest ih =>
      rw [publishTo, List.mem_cons]
      split
      · rename_i failed
        rw [ih]
        refine or_congr_right ⟨fun later => ⟨.inr later.1, later.2⟩, ?_⟩
        rintro ⟨rfl | later, taken, sent, same⟩
        · rw [failed] at sent
          cases sent
        · exact ⟨later, taken, sent, same⟩
      · rename_i taken sent
        rw [ih, List.mem_append, List.mem_singleton, or_assoc]
        refine or_congr_right ⟨?_, ?_⟩
        · rintro (rfl | ⟨later, rest⟩)
          · exact ⟨.inl rfl, taken, sent, rfl⟩
          · exact ⟨.inr later, rest⟩
        · rintro ⟨here | later, others⟩
          · obtain ⟨taken', sent', same⟩ := others
            rw [here, sent] at sent'
            obtain rfl := Option.some.inj sent'
            exact .inl (Prod.ext here same)
          · exact .inr ⟨later, others⟩

variable {channel message : Bytes} {broker : PubSubBroker}

/-- Without an entry of the channel there is no subscriber, and nothing for the loop to do. -/
theorem publish_eq (traversal : Traversal (broker.subscribers channel))
    (send : Socket → SendResult (castInt (formatMessage channel message).length))
    : publish channel message broker traversal send
      = publishTo (formatMessage channel message) send {} traversal.order := by
  rw [publish]
  split
  · rename_i absent
    have nobody : traversal.order = [] := by
      rw [← List.toFinset_eq_empty_iff, traversal.complete, subscribers, absent]
      rfl
    rw [nobody]
    rfl
  · rfl

/-- The number that is returned is that of the sends that did not fail. -/
theorem delivered_publish (traversal : Traversal (broker.subscribers channel))
    (send : Socket → SendResult (castInt (formatMessage channel message).length))
    : (publish channel message broker traversal send).delivered
      = ((broker.subscribers channel).filter fun client => (send client).isSome).card := by
  have gone
      : (traversal.order.filter fun client => (send client).isSome).toFinset
        = (broker.subscribers channel).filter fun client => (send client).isSome := by
    rw [List.toFinset_filter, traversal.complete]
  rw [publish_eq, delivered_publishTo, Nat.zero_add, List.countP_eq_length_filter, ← gone,
    List.toFinset_card_of_nodup (traversal.nodup.filter _)]

/-- What a subscriber got is the front of the frame that its socket took. -/
theorem mem_handed_publish (traversal : Traversal (broker.subscribers channel))
    (send : Socket → SendResult (castInt (formatMessage channel message).length))
    (delivery : Socket × Bytes)
    : delivery ∈ (publish channel message broker traversal send).handed
      ↔ delivery.1 ∈ broker.subscribers channel
        ∧ ∃ taken, send delivery.1 = some taken
          ∧ delivery.2 = (formatMessage channel message).take taken := by
  rw [publish_eq, mem_handed_publishTo, traversal.mem_iff]
  exact or_iff_right (List.not_mem_nil)

/-- The subscribers that were handed the whole frame. -/
def served (channel message : Bytes) (broker : PubSubBroker)
    (traversal : Traversal (broker.subscribers channel))
    (send : Socket → SendResult (castInt (formatMessage channel message).length))
    : Finset Socket :=
  (broker.subscribers channel).filter fun client =>
    (client, formatMessage channel message)
      ∈ (publish channel message broker traversal send).handed

/-- As many deliveries are counted as subscribers were handed the whole frame, and it is read as
the three texts.
-/
structure DeliversWhole (channel message : Bytes) (broker : PubSubBroker)
    (traversal : Traversal (broker.subscribers channel))
    (send : Socket → SendResult (castInt (formatMessage channel message).length))
    : Prop where
  counted
    : (publish channel message broker traversal send).delivered
      = (served channel message broker traversal send).card
  decoded
    : Resp.decode (formatMessage channel message)
      = some [.array [ascii "message", channel, message]]

/-- A socket has the whole frame exactly if it took as many bytes. -/
theorem mem_served {traversal : Traversal (broker.subscribers channel)}
    {send : Socket → SendResult (castInt (formatMessage channel message).length)}
    {client : Socket}
    : client ∈ served channel message broker traversal send
      ↔ client ∈ broker.subscribers channel
        ∧ ∃ taken, send client = some taken
          ∧ taken.1 = (formatMessage channel message).length := by
  rw [served, Finset.mem_filter, mem_handed_publish]
  refine and_congr_right fun subscribed => ?_
  rw [and_iff_right subscribed]
  refine exists_congr fun taken => and_congr_right fun _ => ?_
  have offered := taken.2.trans (castInt_le _)
  rw [eq_comm, List.take_eq_self_iff]
  omega

/-- Every delivery that is counted is a whole one exactly if no subscriber's socket takes a part of
the frame only: any number of bytes counts, and the rest of the frame is not kept.
-/
theorem deliversWhole_iff (channel message : Bytes) (broker : PubSubBroker)
    (traversal : Traversal (broker.subscribers channel))
    (send : Socket → SendResult (castInt (formatMessage channel message).length))
    : DeliversWhole channel message broker traversal send
      ↔ ∀ client ∈ broker.subscribers channel, ∀ taken,
          send client = some taken → taken.1 = (formatMessage channel message).length := by
  have among
      : served channel message broker traversal send
        ⊆ (broker.subscribers channel).filter fun client => (send client).isSome := by
    intro client whole
    obtain ⟨subscribed, taken, sent, -⟩ := mem_served.mp whole
    exact Finset.mem_filter.mpr ⟨subscribed, Option.isSome_iff_exists.mpr ⟨taken, sent⟩⟩
  constructor
  · rintro ⟨counted, -⟩ client subscribed taken sent
    rw [delivered_publish] at counted
    have same := Finset.eq_of_subset_of_card_le among counted.le
    have whole : client ∈ served channel message broker traversal send := by
      rw [same]
      exact Finset.mem_filter.mpr ⟨subscribed, Option.isSome_iff_exists.mpr ⟨taken, sent⟩⟩
    obtain ⟨-, taken', sent', complete⟩ := mem_served.mp whole
    rw [sent] at sent'
    exact Option.some.inj sent' ▸ complete
  · intro complete
    refine ⟨?_, decode_formatMessage channel message⟩
    rw [delivered_publish]
    refine congrArg Finset.card (Finset.Subset.antisymm ?_ among)
    intro client counted
    obtain ⟨subscribed, accepted⟩ := Finset.mem_filter.mp counted
    obtain ⟨taken, sent⟩ := Option.isSome_iff_exists.mp accepted
    exact mem_served.mpr ⟨subscribed, taken, sent, complete client subscribed taken sent⟩

/-- One subscriber, whose socket has room for ten bytes of the frame: a delivery is counted. -/
theorem deliversWhole_fails
    : ¬ ∀ (broker : PubSubBroker) traversal send,
        DeliversWhole (ascii "news") (ascii "hello") broker traversal send := by
  intro claimed
  have whole :=
    claimed (({} : PubSubBroker).subscribe (ascii "news") 4) ⟨[4], by decide, by decide +kernel⟩
      fun _ => some ⟨10, by decide +kernel⟩
  exact absurd whole.counted (by decide +kernel)

end PubSubBroker

end InMemoryDB
