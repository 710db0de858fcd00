import InMemoryDB.Library.Runs
import Mathlib.Data.List.Nodup

/-! Operations of many clients on one object, seen from outside: when each was called and when it
returned. They are linearizable if the object could have served them one after the other, each
between its call and its return.
-/

namespace Linearization

variable {Id Call Reply Object : Type*}

/-- What is seen of an operation. -/
inductive Event (Id Call Reply : Type*) where
  | called (id : Id) (call : Call)
  | returned (id : Id) (reply : Reply)

/-- An operation as a whole. -/
structure Operation (Id Call Reply : Type*) where
  id : Id
  call : Call
  reply : Reply

/-- An object that has one client: how it answers a call, and how it may change by itself between
two calls.
-/
structure Specification (Call Reply Object : Type*) where
  answers : Object → Call → Reply → Object → Prop
  moves : Object → Object → Prop

/-- The object serves the operations one after the other. -/
inductive Serves (spec : Specification Call Reply Object) (start : Object)
    : List (Operation Id Call Reply) → Object → Prop
  | nil : Serves spec start [] start
  | move {order middle final} (earlier : Serves spec start order middle)
    (moved : spec.moves middle final)
    : Serves spec start order final
  | serve {order middle final} (earlier : Serves spec start order middle)
    (operation : Operation Id Call Reply)
    (answered : spec.answers middle operation.call operation.reply final)
    : Serves spec start (order ++ [operation]) final

/-- The first operation is served at some point, and the second one is not served until then. -/
def Before (first second : Id) (order : List (Operation Id Call Reply)) : Prop :=
  ∃ front back,
    order = front ++ back
    ∧ first ∈ front.map Operation.id
    ∧ second ∉ front.map Operation.id

theorem Before.append {first second : Id} {order : List (Operation Id Call Reply)}
    (before : Before first second order) (more : List (Operation Id Call Reply))
    : Before first second (order ++ more) := by
  obtain ⟨front, back, rfl, served, unserved⟩ := before
  exact ⟨front, back ++ more, List.append_assoc .., served, unserved⟩

/-- The order is one in which the object could have served the operations of the history: each was
called once and served at most once, it has returned only what it was answered, and if it had
returned before another one was called, it was served before that one.
-/
structure Linearizes (spec : Specification Call Reply Object) (start : Object)
    (order : List (Operation Id Call Reply)) (object : Object)
    (history : List (Event Id Call Reply))
    : Prop where
  served : Serves spec start order object
  once : (order.map Operation.id).Nodup
  called : ∀ operation ∈ order, .called operation.id operation.call ∈ history
  fresh
    : ∀ front id call back,
        history = front ++ .called id call :: back → ∀ other, .called id other ∉ front
  returned : ∀ id reply, .returned id reply ∈ history → ∃ call, ⟨id, call, reply⟩ ∈ order
  realTime
    : ∀ front id reply back,
        history = front ++ .returned id reply :: back
        → ∀ other call, .called other call ∈ back → Before id other order

namespace Linearizes

variable {spec : Specification Call Reply Object} {start object next : Object}
  {order : List (Operation Id Call Reply)} {history : List (Event Id Call Reply)}

/-- Before the first call. -/
theorem nil : Linearizes spec start ([] : List (Operation Id Call Reply)) start [] where
  served := .nil
  once := List.nodup_nil
  called := by simp
  fresh := by simp
  returned := by simp
  realTime := by simp

/-- The object changes by itself. -/
theorem move (linearizes : Linearizes spec start order object history)
    (moved : spec.moves object next)
    : Linearizes spec start order next history :=
  { linearizes with served := linearizes.served.move moved }

/-- An operation is called for the first time. None of those that have returned before waits. -/
theorem call (linearizes : Linearizes spec start order object history) {id : Id}
    (new : ∀ other, .called id other ∉ history) (call : Call)
    : Linearizes spec start order object (history ++ [.called id call]) where
  served := linearizes.served
  once := linearizes.once
  called operation member := List.mem_append_left _ (linearizes.called operation member)
  fresh := by
    intro front first call' back same other
    rcases TransitionSystem.split_snoc same with ⟨-, last, rfl⟩ | ⟨others, -, rfl⟩
    · obtain ⟨rfl, -⟩ := Event.called.inj last
      exact new other
    · exact linearizes.fresh front first call' others rfl other
  returned first reply member := by
    rcases List.mem_append.mp member with before | last
    · exact linearizes.returned first reply before
    · cases List.mem_singleton.mp last
  realTime := by
    intro front first reply back same second call' member
    rcases TransitionSystem.split_snoc same with ⟨-, last, -⟩ | ⟨others, rfl, rfl⟩
    · cases last
    · rcases List.mem_append.mp member with before | last
      · exact linearizes.realTime front first reply others rfl second call' before
      · obtain ⟨rfl, -⟩ := Event.called.inj (List.mem_singleton.mp last)
        obtain ⟨answered, done⟩ := linearizes.returned first reply (by simp)
        refine ⟨order, [], (List.append_nil order).symm, List.mem_map_of_mem done, ?_⟩
        intro served
        obtain ⟨operation, among, rfl⟩ := List.mem_map.mp served
        exact new operation.call (linearizes.called operation among)

/-- An operation that has been called is served. -/
theorem serve (linearizes : Linearizes spec start order object history)
    (operation : Operation Id Call Reply)
    (called : .called operation.id operation.call ∈ history)
    (unserved : operation.id ∉ order.map Operation.id)
    (answered : spec.answers object operation.call operation.reply next)
    : Linearizes spec start (order ++ [operation]) next history where
  served := linearizes.served.serve operation answered
  once := by
    rw [List.map_append, List.map_singleton]
    refine List.nodup_append.mpr ⟨linearizes.once, List.nodup_singleton _, ?_⟩
    intro first member second last
    obtain rfl := List.mem_singleton.mp last
    exact fun same => unserved (same ▸ member)
  called := by
    intro other member
    rcases List.mem_append.mp member with before | last
    · exact linearizes.called other before
    · obtain rfl := List.mem_singleton.mp last
      exact called
  fresh := linearizes.fresh
  returned id reply member := by
    obtain ⟨call, done⟩ := linearizes.returned id reply member
    exact ⟨call, List.mem_append_left _ done⟩
  realTime front id reply back same other call member :=
    (linearizes.realTime front id reply back same other call member).append [operation]

/-- An operation that has been served returns what it was answered. -/
theorem returns (linearizes : Linearizes spec start order object history) {id : Id} {call : Call}
    {reply : Reply} (done : ⟨id, call, reply⟩ ∈ order)
    : Linearizes spec start order object (history ++ [.returned id reply]) where
  served := linearizes.served
  once := linearizes.once
  called operation member := List.mem_append_left _ (linearizes.called operation member)
  fresh := by
    intro front first call' back same other
    rcases TransitionSystem.split_snoc same with ⟨-, last, -⟩ | ⟨others, -, rfl⟩
    · cases last
    · exact linearizes.fresh front first call' others rfl other
  returned first reply' member := by
    rcases List.mem_append.mp member with before | last
    · exact linearizes.returned first reply' before
    · obtain ⟨rfl, rfl⟩ := Event.returned.inj (List.mem_singleton.mp last)
      exact ⟨call, done⟩
  realTime := by
    intro front first reply' back same other call' member
    rcases TransitionSystem.split_snoc same with ⟨rfl, -⟩ | ⟨others, rfl, rfl⟩
    · cases member
    · rcases List.mem_append.mp member with before | last
      · exact linearizes.realTime front first reply' others rfl other call' before
      · cases List.mem_singleton.mp last

end Linearizes

-----------------------------------------------------------------------------------------
-- Simulation
-----------------------------------------------------------------------------------------

section Simulation

variable {Object' : Type*} {spec : Specification Call Reply Object} {start final : Object}
  {start' : Object'} {order : List (Operation Id Call Reply)}

/-- An object whose every answer another one could have given serves an order only if that one
could, by induction on the order. The other one need not change where this one does so by itself.
-/
theorem Serves.simulates (spec' : Specification Call Reply Object')
    (like : Object → Object' → Prop) (serves : Serves spec start order final)
    (answered
      : ∀ {object object' call reply next},
          like object object'
          → spec.answers object call reply next
          → ∃ next', spec'.answers object' call reply next' ∧ like next next')
    (moved
      : ∀ {object object' next}, like object object' → spec.moves object next → like next object')
    (initial : like start start')
    : ∃ final', Serves spec' start' order final' ∧ like final final' := by
  induction serves with
  | nil => exact ⟨start', .nil, initial⟩
  | move _ moves ih =>
      obtain ⟨final', served, same⟩ := ih
      exact ⟨final', served, moved same moves⟩
  | serve _ operation answers ih =>
      obtain ⟨middle', served, same⟩ := ih
      obtain ⟨final', answers', same'⟩ := answered same answers
      exact ⟨final', served.serve operation answers', same'⟩

end Simulation

end Linearization
