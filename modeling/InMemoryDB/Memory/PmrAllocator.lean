import InMemoryDB.Library.Runs
import InMemoryDB.Memory.VariantType
import Mathlib.Algebra.BigOperators.Group.List.Basic
import Mathlib.Data.Nat.Bitwise

/-! The memory resource of an arena, which counts the bytes that it hands out and refuses what
goes beyond its capacity; with the machine words of the source.
-/

namespace InMemoryDB

/-- The text that the exception carries. -/
def OomException.what : OomException → Bytes
  | .hardLimit => ascii "(error) OOM command not allowed when used memory > 'maxmemory'"

/-- An address that an allocation returns. -/
abbrev Pointer := ℕ

/-- The resource behind this one, which answers a request of some bytes and an alignment with an
address, or throws `bad_alloc`.
-/
abbrev Upstream := UInt64 → UInt64 → Option Pointer

structure TrackingMemoryResource where
  bytesUsed : UInt64 := 0
  capacity : UInt64
  deriving DecidableEq

namespace TrackingMemoryResource

/-- What a request comes to: its outcome, whether it went upstream, and the resource after it. -/
structure Allocation where
  result : Except OomException Pointer
  forwarded : Bool
  resource : TrackingMemoryResource

def doAllocate (upstream : Upstream) (bytes alignment : UInt64)
    (resource : TrackingMemoryResource)
    : Allocation :=
  if resource.capacity < resource.bytesUsed + bytes then ⟨.error .hardLimit, false, resource⟩
  else
    match upstream bytes alignment with
    | some block =>
        ⟨.ok block, true, { resource with bytesUsed := resource.bytesUsed + bytes }⟩
    | none => ⟨.error .hardLimit, true, resource⟩

/-- The bookkeeping of a deallocation, with its clamp to zero. -/
def doDeallocate (bytes : UInt64) (resource : TrackingMemoryResource) : TrackingMemoryResource :=
  { resource with
    bytesUsed := if bytes ≤ resource.bytesUsed then resource.bytesUsed - bytes else 0 }

/-- A request goes upstream and is granted, or throws and leaves the count as it is. -/
theorem doAllocate_cases (upstream : Upstream) (bytes alignment : UInt64)
    (resource : TrackingMemoryResource)
    : (∃ block,
        ¬ resource.capacity < resource.bytesUsed + bytes
        ∧ doAllocate upstream bytes alignment resource
          = ⟨.ok block, true, { resource with bytesUsed := resource.bytesUsed + bytes }⟩)
      ∨ ∃ forwarded,
          doAllocate upstream bytes alignment resource
            = ⟨.error .hardLimit, forwarded, resource⟩ := by
  unfold doAllocate
  split
  · exact .inr ⟨false, rfl⟩
  · rename_i passed
    cases upstream bytes alignment with
    | some block => exact .inl ⟨block, passed, rfl⟩
    | none => exact .inr ⟨true, rfl⟩

/-- The sum of the test wraps around and passes: the request goes upstream though there is no
room for it.
-/
def Wraps (bytes : UInt64) (resource : TrackingMemoryResource) : Prop :=
  2 ^ 64 ≤ resource.bytesUsed.toNat + bytes.toNat
  ∧ resource.bytesUsed + bytes ≤ resource.capacity

instance (bytes : UInt64) (resource : TrackingMemoryResource) : Decidable (Wraps bytes resource) :=
  inferInstanceAs (Decidable (_ ∧ _))

/-- A request that passes the test without wrapping fits, and its sum is the exact one. -/
theorem fits_of_not_wraps {bytes : UInt64} {resource : TrackingMemoryResource}
    (straight : ¬ resource.Wraps bytes)
    (passed : ¬ resource.capacity < resource.bytesUsed + bytes)
    : (resource.bytesUsed + bytes).toNat = resource.bytesUsed.toNat + bytes.toNat
      ∧ resource.bytesUsed.toNat + bytes.toNat ≤ resource.capacity.toNat := by
  have bounded : resource.bytesUsed + bytes ≤ resource.capacity := UInt64.not_lt.mp passed
  have small : resource.bytesUsed.toNat + bytes.toNat < 2 ^ 64 := by
    by_contra large
    exact straight ⟨Nat.not_lt.mp large, bounded⟩
  have sum : (resource.bytesUsed + bytes).toNat = resource.bytesUsed.toNat + bytes.toNat := by
    rw [UInt64.toNat_add, Nat.mod_eq_of_lt small]
  exact ⟨sum, sum ▸ UInt64.le_iff_toNat_le.mp bounded⟩

end TrackingMemoryResource

-----------------------------------------------------------------------------------------
-- Histories of requests and blocks
-----------------------------------------------------------------------------------------

/-- A resource, and the blocks that it has handed out and not got back, with their sizes. -/
structure TrackedArena where
  resource : TrackingMemoryResource
  outstanding : List (Pointer × UInt64) := []

/-- A request, with what the resource behind would answer; or a block given back. -/
inductive ArenaAction where
  | allocate (bytes alignment : UInt64) (upstream : Upstream)
  | deallocate (block : Pointer) (bytes : UInt64)

namespace TrackedArena

/-- A fresh resource of some capacity. -/
def start (capacity : UInt64) : TrackedArena := { resource := { capacity := capacity } }

/-- A block can be given back as long as it is outstanding, with the size it was asked for. -/
def step (arena : TrackedArena) : ArenaAction → Option TrackedArena
  | .allocate bytes alignment upstream =>
      let done := arena.resource.doAllocate upstream bytes alignment
      match done.result with
      | .ok block =>
          some
            { resource := done.resource, outstanding := (block, bytes) :: arena.outstanding }
      | .error _ => some { arena with resource := done.resource }
  | .deallocate block bytes =>
      if (block, bytes) ∈ arena.outstanding then
        some
          {
            resource := arena.resource.doDeallocate bytes,
            outstanding := arena.outstanding.erase (block, bytes)
          }
      else none

/-- The bytes of all outstanding blocks. -/
def outstandingBytes (arena : TrackedArena) : ℕ :=
  (arena.outstanding.map fun block => block.2.toNat).sum

/-- The count is exact, and within the capacity. -/
structure Exact (arena : TrackedArena) : Prop where
  counted : arena.resource.bytesUsed.toNat = arena.outstandingBytes
  within : arena.outstandingBytes ≤ arena.resource.capacity.toNat

/-- An action does what is right: a request beyond the room that is left throws and does not go
upstream, one that throws leaves the count as it is, and no block is clamped.
-/
def Sound (arena : TrackedArena) : ArenaAction → Prop
  | .allocate bytes alignment upstream =>
      let done := arena.resource.doAllocate upstream bytes alignment
      (arena.resource.capacity.toNat - arena.resource.bytesUsed.toNat < bytes.toNat
        → done.result = .error .hardLimit ∧ done.forwarded = false)
      ∧ (done.result = .error .hardLimit
        → done.resource.bytesUsed = arena.resource.bytesUsed)
  | .deallocate _ bytes => bytes ≤ arena.resource.bytesUsed

/-- No request makes the sum of the test wrap around and pass. -/
def Straight (arena : TrackedArena) : ArenaAction → Prop
  | .allocate bytes _ _ => ¬ arena.resource.Wraps bytes
  | .deallocate _ _ => True

instance (arena : TrackedArena) : DecidablePred arena.Straight
  | .allocate .. => inferInstanceAs (Decidable (¬ _))
  | .deallocate .. => inferInstanceAs (Decidable True)

theorem exact_start (capacity : UInt64) : (start capacity).Exact :=
  ⟨rfl, Nat.zero_le _⟩

/-- An outstanding block is part of the sum of them all. -/
theorem outstandingBytes_erase {arena : TrackedArena} {block : Pointer} {bytes : UInt64}
    (member : (block, bytes) ∈ arena.outstanding)
    : bytes.toNat + ((arena.outstanding.erase (block, bytes)).map fun block => block.2.toNat).sum
      = arena.outstandingBytes := by
  have apart := (List.perm_cons_erase member).map fun block : Pointer × UInt64 => block.2.toNat
  exact apart.sum_eq.symm

theorem Exact.deallocate {arena : TrackedArena} (held : arena.Exact) {block : Pointer}
    {bytes : UInt64} (member : (block, bytes) ∈ arena.outstanding)
    : bytes ≤ arena.resource.bytesUsed := by
  have part := outstandingBytes_erase member
  rw [UInt64.le_iff_toNat_le, held.counted]
  omega

/-- From an exact count an action is sound exactly if it does not wrap. -/
theorem Exact.sound_iff {arena next : TrackedArena} {action : ArenaAction} (held : arena.Exact)
    (taken : arena.step action = some next)
    : arena.Sound action ↔ arena.Straight action := by
  cases action with
  | allocate bytes alignment upstream =>
      constructor
      · rintro ⟨refused, -⟩ ⟨large, passed⟩
        have capacity := arena.resource.capacity.toNat_lt
        have room := held.counted.trans_le held.within
        obtain ⟨-, kept⟩ := refused (by omega)
        rw [TrackingMemoryResource.doAllocate, if_neg (UInt64.not_lt.mpr passed)] at kept
        cases answer : upstream bytes alignment with
        | some block => simp [answer] at kept
        | none => simp [answer] at kept
      · intro straight
        constructor
        · intro large
          have beyond : arena.resource.capacity < arena.resource.bytesUsed + bytes := by
            by_contra passed
            have fits := TrackingMemoryResource.fits_of_not_wraps straight passed
            omega
          rw [TrackingMemoryResource.doAllocate, if_pos beyond]
          exact ⟨rfl, rfl⟩
        · intro failed
          rcases arena.resource.doAllocate_cases upstream bytes alignment with
            ⟨block, -, granted⟩ | ⟨forwarded, thrown⟩
          · rw [granted] at failed
            cases failed
          · rw [thrown]
  | deallocate block bytes =>
      simp only [step, Option.ite_none_right_eq_some] at taken
      exact ⟨fun _ => trivial, fun _ => held.deallocate taken.1⟩

/-- An action that does not wrap keeps the count exact. -/
theorem Exact.step {arena next : TrackedArena} {action : ArenaAction} (held : arena.Exact)
    (straight : arena.Straight action) (taken : arena.step action = some next)
    : next.Exact := by
  cases action with
  | allocate bytes alignment upstream =>
      rcases arena.resource.doAllocate_cases upstream bytes alignment with
        ⟨block, passed, granted⟩ | ⟨forwarded, thrown⟩
      · obtain rfl : _ = next := by simpa [TrackedArena.step, granted] using taken
        obtain ⟨sum, within⟩ := TrackingMemoryResource.fits_of_not_wraps straight passed
        have counted := held.counted
        constructor
        · simp only [outstandingBytes, List.map_cons, List.sum_cons] at counted ⊢
          omega
        · simp only [outstandingBytes, List.map_cons, List.sum_cons] at counted ⊢
          omega
      · obtain rfl : arena = next := by simpa [TrackedArena.step, thrown] using taken
        exact held
  | deallocate block bytes =>
      simp only [TrackedArena.step, Option.ite_none_right_eq_some, Option.some.injEq] at taken
      obtain ⟨member, rfl⟩ := taken
      have part := outstandingBytes_erase member
      have below := held.deallocate member
      have rest : (arena.resource.bytesUsed - bytes).toNat
          = arena.resource.bytesUsed.toNat - bytes.toNat := UInt64.toNat_sub_of_le _ _ below
      have counted := held.counted
      have within := held.within
      constructor
      · simp only [TrackingMemoryResource.doDeallocate, if_pos below, rest, outstandingBytes]
        omega
      · simp only [TrackingMemoryResource.doDeallocate, outstandingBytes]
        omega

/-- Over any history of requests and blocks given back, with any answers of the resource behind:
the count is exact and within the capacity in every state, and every action is sound, exactly if
no request makes the sum of the test wrap around and pass.
-/
theorem accounting_exact_iff {capacity : UInt64} {final : TrackedArena}
    {steps : List (TrackedArena × ArenaAction)}
    (run : TransitionSystem.Run step (start capacity) steps final)
    : TransitionSystem.Along (fun arena action => arena.Exact ∧ arena.Sound action) steps
        ∧ final.Exact
      ↔ TransitionSystem.Along Straight steps := by
  have same
      : TransitionSystem.Along (fun arena action => arena.Exact ∧ arena.Sound action) steps
        ↔ TransitionSystem.Along Straight steps :=
    run.along_iff (fun held taken => (and_iff_right held).trans (held.sound_iff taken))
      Exact.step (exact_start capacity)
  constructor
  · rintro ⟨kept, -⟩
    exact same.mp kept
  · intro straight
    exact ⟨same.mpr straight, run.invariant Exact.step straight (exact_start capacity)⟩

/-- Two blocks of one mebibyte, a request for which there is no room, and a block given back. -/
theorem accounting_exact_iff_blocks
    : ∃ steps final,
        TransitionSystem.Run step (start 1048576) steps final
        ∧ TransitionSystem.Along (fun arena action => arena.Exact ∧ arena.Sound action) steps
        ∧ final.resource.bytesUsed = 256 := by
  have traced
      : TransitionSystem.trace step (start 1048576)
          [.allocate 256 8 fun _ _ => some 4096, .allocate 256 8 fun _ _ => some 8192,
            .allocate 1048576 8 fun _ _ => some 0, .deallocate 4096 256]
        = some _ := rfl
  have run := TransitionSystem.run_of_trace traced
  exact ⟨_, _, run, ((accounting_exact_iff run).mpr (by decide +kernel)).1, by decide +kernel⟩

/-- With a hundred bytes in use, a request for all but fifty of the bytes there can be. -/
theorem accounting_exact_fails
    : ¬ ∀ capacity steps final,
        TransitionSystem.Run step (start capacity) steps final
        → TransitionSystem.Along (fun arena action => arena.Exact ∧ arena.Sound action) steps
          ∧ final.Exact := by
  intro claimed
  have traced
      : TransitionSystem.trace step (start 4096)
          [.allocate 100 8 fun _ _ => some 64,
            .allocate 18446744073709551566 8 fun _ _ => none]
        = some _ := rfl
  obtain ⟨kept, -⟩ := claimed 4096 _ _ (TransitionSystem.run_of_trace traced)
  obtain ⟨-, refused, -⟩ := kept _ (List.mem_cons_of_mem _ List.mem_cons_self)
  obtain ⟨-, stopped⟩ := refused (by decide +kernel)
  exact absurd stopped (by decide +kernel)

end TrackedArena

end InMemoryDB
