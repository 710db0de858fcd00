import Mathlib.Data.List.Basic
import Mathlib.Data.Nat.ModEq

/-! A calendar kept in a ring of buckets, one for each remainder of a day: entries are put down for
days to come, and every day the bucket of that day is emptied.
-/

namespace Calendar

variable {Entry : Type*}

/-- What a list of entries with their days has for one day, in its order. -/
def due (entries : List (ℕ × Entry)) (day : ℕ) : List Entry :=
  (entries.filter fun entry => entry.1 = day).map Prod.snd

theorem due_append (entries more : List (ℕ × Entry)) (day : ℕ)
    : due (entries ++ more) day = due entries day ++ due more day := by
  simp only [due, List.filter_append, List.map_append]

theorem due_singleton (day : ℕ) (entry : Entry) (other : ℕ)
    : due [(day, entry)] other = if other = day then [entry] else [] := by
  rcases eq_or_ne other day with rfl | different
  · simp [due]
  · simp [due, different, different.symm]

/-- The entries of a day, marked with it, are due on that day. -/
theorem due_map (day : ℕ) (entries : List Entry) (other : ℕ)
    : due (entries.map fun entry => (day, entry)) other = if other = day then entries else [] := by
  induction entries with
  | nil => exact (ite_self []).symm
  | cons entry rest ih =>
      rw [List.map_cons, ← List.singleton_append, due_append, due_singleton, ih]
      split_ifs
      · rfl
      · rfl

/-- Two days of one lap that share a bucket are the same day. -/
theorem eq_of_mod_eq {size today day other : ℕ} (here : today ≤ day) (there : today ≤ other)
    (near : day < today + size) (near' : other < today + size) (same : day % size = other % size)
    : day = other := by
  obtain ⟨ahead, rfl⟩ := Nat.exists_eq_add_of_le here
  obtain ⟨ahead', rfl⟩ := Nat.exists_eq_add_of_le there
  have inside : ahead % size = ahead' % size := Nat.ModEq.add_left_cancel' today same
  rw [Nat.mod_eq_of_lt (Nat.lt_of_add_lt_add_left near),
    Nat.mod_eq_of_lt (Nat.lt_of_add_lt_add_left near')] at inside
  rw [inside]

/-- A day that ends before the next lap does and has the bucket of today is not to come. -/
theorem le_of_mod_eq {size today day : ℕ} (near : day < today + size)
    (same : day % size = today % size)
    : day ≤ today := by
  by_contra later
  have here := eq_of_mod_eq (by omega) le_rfl near (by omega) same
  omega

/-- Of the entries that were put down the ring holds those of the days to come, each day in its
bucket; what was taken out on the days before is what was put down for them.
-/
structure Keeps (size : ℕ) (buckets : ℕ → List Entry) (today : ℕ)
    (entered taken : List (ℕ × Entry))
    : Prop where
  before : ∀ day < today, due taken day = due entered day
  after : ∀ day, today ≤ day → due taken day = []
  waiting : ∀ day, today ≤ day → day < today + size → buckets (day % size) = due entered day
  beyond : ∀ day, today + size ≤ day → due entered day = []

namespace Keeps

variable {size today : ℕ} {buckets : ℕ → List Entry} {entered taken : List (ℕ × Entry)}

theorem empty (size : ℕ) : Keeps size (fun _ => ([] : List Entry)) 0 [] [] where
  before _ past := absurd past (Nat.not_lt_zero _)
  after _ _ := rfl
  waiting _ _ _ := rfl
  beyond _ _ := rfl

/-- An entry may be put down for a day of the lap that begins today. -/
theorem enter (keeps : Keeps size buckets today entered taken) {day : ℕ} (entry : Entry)
    (here : today ≤ day) (near : day < today + size)
    : Keeps size
        (fun index => if index = day % size then buckets index ++ [entry] else buckets index)
        today (entered ++ [(day, entry)]) taken := by
  refine ⟨?_, keeps.after, ?_, ?_⟩
  · intro other past
    rw [due_append, due_singleton, if_neg (by omega), List.append_nil]
    exact keeps.before other past
  · intro other there near'
    rw [due_append, due_singleton, ← keeps.waiting other there near']
    by_cases same : other = day
    · rw [if_pos (congrArg (· % size) same), if_pos same]
    · rw [if_neg fun collide => same (eq_of_mod_eq there here near' near collide), if_neg same,
        List.append_nil]
  · intro other far
    rw [due_append, due_singleton, if_neg (by omega), List.append_nil]
    exact keeps.beyond other far

/-- The bucket of today has the entries of today, and makes room for those of a lap ahead. -/
theorem turn (keeps : Keeps size buckets today entered taken) (filled : 0 < size)
    : Keeps size (fun index => if index = today % size then [] else buckets index) (today + 1)
        entered (taken ++ (buckets (today % size)).map fun entry => (today, entry)) := by
  have now := keeps.waiting today le_rfl (Nat.lt_add_of_pos_right filled)
  refine ⟨?_, ?_, ?_, ?_⟩
  · intro day past
    rw [due_append, due_map]
    rcases Nat.lt_succ_iff_lt_or_eq.mp past with earlier | rfl
    · rw [if_neg (by omega), List.append_nil]
      exact keeps.before day earlier
    · rw [if_pos rfl, keeps.after day le_rfl, now]
      rfl
  · intro day later
    rw [due_append, due_map, if_neg (by omega), List.append_nil]
    exact keeps.after day (by omega)
  · intro day later near
    rcases Nat.lt_or_ge day (today + size) with inside | last
    · rw [if_neg fun collide => ?_, keeps.waiting day (by omega) inside]
      have same := eq_of_mod_eq (by omega) le_rfl inside (by omega) collide
      omega
    · obtain rfl : day = today + size := by omega
      rw [Nat.add_mod_right, if_pos rfl, keeps.beyond _ le_rfl]
  · intro day far
    exact keeps.beyond day (by omega)

end Keeps

end Calendar
