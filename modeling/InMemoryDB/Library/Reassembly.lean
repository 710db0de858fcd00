import Mathlib.Data.Finmap

/-! Reassembly of numbered items: they arrive in any order, and leave in the order of their
numbers.
-/

namespace Reassembly

variable {α : Type*}

/-- The number that is due, the items that came before their turn, and those that have left. -/
structure Buffer (α : Type*) where
  next : ℕ
  held : Finmap fun _ : ℕ => α
  out : List α

namespace Buffer

def insert (number : ℕ) (item : α) (buffer : Buffer α) : Buffer α :=
  { buffer with held := buffer.held.insert number item }

/-- Items leave as long as the one that is due is there, at most as many as the fuel allows. -/
def release : ℕ → Buffer α → Buffer α
  | 0, buffer => buffer
  | fuel + 1, buffer =>
      match buffer.held.lookup buffer.next with
      | none => buffer
      | some item =>
          release fuel ⟨buffer.next + 1, buffer.held.erase buffer.next, buffer.out ++ [item]⟩

/-- What a buffer has when certain items have arrived: those before the number that is due
have left, the others are held.
-/
structure Represents (arrived : ℕ → Option α) (buffer : Buffer α) : Prop where
  out : buffer.out.map some = (List.range buffer.next).map arrived
  held : ∀ number, buffer.held.lookup number = if number < buffer.next then none else arrived number

theorem represents_empty : Represents (fun _ => none) (⟨0, ∅, []⟩ : Buffer α) where
  out := rfl
  held number := by simp

namespace Represents

variable {arrived : ℕ → Option α} {buffer : Buffer α}

/-- Everything before the number that is due has arrived. -/
theorem arrived_of_lt (represents : Represents arrived buffer) {number : ℕ}
    (before : number < buffer.next)
    : (arrived number).isSome = true := by
  have member : arrived number ∈ buffer.out.map some := by
    rw [represents.out]
    exact List.mem_map_of_mem (List.mem_range.mpr before)
  obtain ⟨item, -, same⟩ := List.mem_map.mp member
  rw [← same]
  rfl

/-- A new item is held. -/
theorem insert (represents : Represents arrived buffer) {number : ℕ}
    (fresh : arrived number = none) (item : α)
    : Represents (Function.update arrived number (some item)) (buffer.insert number item) := by
  have due : ¬ number < buffer.next := by
    intro before
    have there := represents.arrived_of_lt before
    simp [fresh] at there
  constructor
  case out =>
    refine represents.out.trans (List.map_congr_left ?_)
    intro other member
    rw [Function.update_of_ne]
    rintro rfl
    exact due (List.mem_range.mp member)
  case held =>
    intro other
    by_cases same : other = number
    · subst other
      simp [Buffer.insert, due]
    · rw [Function.update_of_ne same]
      exact (Finmap.lookup_insert_of_ne _ same).trans (represents.held other)

/-- An item that is held has arrived. -/
theorem arrived_of_held (represents : Represents arrived buffer) {number : ℕ} {item : α}
    (found : buffer.held.lookup number = some item)
    : arrived number = some item := by
  have held := represents.held number
  rw [found] at held
  split at held
  · cases held
  · exact held.symm

/-- The item that is due leaves. -/
theorem advance (represents : Represents arrived buffer) {item : α}
    (found : buffer.held.lookup buffer.next = some item)
    : Represents arrived
        ⟨buffer.next + 1, buffer.held.erase buffer.next, buffer.out ++ [item]⟩ := by
  constructor
  case out => simp [List.range_succ, represents.out, represents.arrived_of_held found]
  case held =>
    intro number
    by_cases same : number = buffer.next
    · subst number
      simp
    · have split : number < buffer.next + 1 ↔ number < buffer.next := by omega
      rw [Finmap.lookup_erase_ne same, represents.held number]
      simp only [split]

/-- Releasing loses nothing, by induction on the fuel. -/
theorem release (represents : Represents arrived buffer) (fuel : ℕ)
    : Represents arrived (buffer.release fuel) := by
  induction fuel generalizing buffer with
  | zero => exact represents
  | succ fuel ih =>
      unfold Buffer.release
      split
      · exact represents
      · exact ih (represents.advance (by assumption))

end Represents

/-- The item that is due has not arrived. -/
def Settled (buffer : Buffer α) : Prop := buffer.held.lookup buffer.next = none

/-- With fuel for all that is held, everything leaves that can, by induction on the fuel. -/
theorem settled_release {buffer : Buffer α} {fuel : ℕ}
    (enough : buffer.held.keys.card ≤ fuel)
    : (buffer.release fuel).Settled := by
  induction fuel generalizing buffer with
  | zero =>
      have empty : buffer.held.keys = ∅ := Finset.card_eq_zero.mp (Nat.le_zero.mp enough)
      apply Finmap.lookup_eq_none.mpr
      rw [← Finmap.mem_keys]
      simp [release, empty]
  | succ fuel ih =>
      unfold release
      split
      · assumption
      · rename_i item found
        have member : buffer.next ∈ buffer.held.keys :=
          Finmap.mem_keys.mpr (Finmap.mem_of_lookup_eq_some found)
        apply ih
        rw [Finmap.keys_erase, Finset.card_erase_of_mem member]
        omega

/-- Once all items up to a total have arrived, all have left. -/
theorem Represents.complete {arrived : ℕ → Option α} {buffer : Buffer α}
    (represents : Represents arrived buffer) (settled : buffer.Settled) {total : ℕ}
    (all : ∀ number, (arrived number).isSome = true ↔ number < total)
    : buffer.next = total ∧ buffer.held = ∅ := by
  have bounded : buffer.next ≤ total := by
    by_contra beyond
    have there := represents.arrived_of_lt (by omega : total < buffer.next)
    exact absurd ((all total).mp there) (lt_irrefl total)
  have due : ¬ buffer.next < total := by
    intro before
    have there := (all buffer.next).mpr before
    have missing := represents.held buffer.next
    rw [show buffer.held.lookup buffer.next = none from settled, if_neg (lt_irrefl _)] at missing
    simp [← missing] at there
  refine ⟨by omega, Finmap.ext_lookup ?_⟩
  intro number
  rw [represents.held, Finmap.lookup_empty]
  split
  · rfl
  · have beyond : ¬ (arrived number).isSome = true := fun there => by
      have := (all number).mp there
      omega
    simpa using beyond

end Buffer

end Reassembly
