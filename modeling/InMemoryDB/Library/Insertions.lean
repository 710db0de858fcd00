import Mathlib.Data.Finmap

/-! A finite map after one binding after another has been inserted: which value each key has,
and how many bindings were new.
-/

namespace Insertions

variable {Key Value : Type*} [DecidableEq Key]

/-- The map with all bindings inserted in their order. -/
def insertAll : List (Key × Value) → (Finmap fun _ : Key => Value) → Finmap fun _ : Key => Value
  | [], map => map
  | (key, value) :: rest, map => insertAll rest (map.insert key value)

/-- The value of the last binding of a key. -/
def last (key : Key) : List (Key × Value) → Option Value
  | [] => none
  | (other, value) :: rest => (last key rest).or (if other = key then some value else none)

/-- For each binding, whether its key was not in the map before. -/
def news : List (Key × Value) → (Finmap fun _ : Key => Value) → List Bool
  | [], _ => []
  | (key, value) :: rest, map =>
      (map.lookup key).isNone :: news rest (map.insert key value)

/-- A key has the value of its last binding, or the one it had; by induction on the bindings. -/
theorem lookup_insertAll (bindings : List (Key × Value)) (map : Finmap fun _ : Key => Value)
    (key : Key)
    : (insertAll bindings map).lookup key = (last key bindings).or (map.lookup key) := by
  induction bindings generalizing map with
  | nil => rfl
  | cons first rest ih =>
      obtain ⟨other, value⟩ := first
      rw [insertAll, ih, last, Option.or_assoc]
      by_cases same : other = key
      · subst other
        simp
      · simp [same, Finmap.lookup_insert_of_ne map (Ne.symm same)]

/-- The keys are those that were there and those of the bindings, by induction on these. -/
theorem keys_insertAll (bindings : List (Key × Value)) (map : Finmap fun _ : Key => Value)
    : (insertAll bindings map).keys = map.keys ∪ (bindings.map Prod.fst).toFinset := by
  induction bindings generalizing map with
  | nil => simp [insertAll]
  | cons first rest ih =>
      obtain ⟨key, value⟩ := first
      rw [insertAll, ih]
      ext other
      simp only [Finset.mem_union, Finmap.mem_keys, Finmap.mem_insert, List.map_cons,
        List.toFinset_cons, Finset.mem_insert]
      tauto

theorem keys_insert (map : Finmap fun _ : Key => Value) (key : Key) (value : Value)
    : (map.insert key value).keys = insert key map.keys := by
  ext other
  simp [Finmap.mem_keys, Finmap.mem_insert]

/-- The new bindings are those by which the map has grown, by induction on the bindings. -/
theorem count_news (bindings : List (Key × Value)) (map : Finmap fun _ : Key => Value)
    : (news bindings map).count true + map.keys.card = (insertAll bindings map).keys.card := by
  induction bindings generalizing map with
  | nil => simp [news, insertAll]
  | cons first rest ih =>
      obtain ⟨key, value⟩ := first
      rw [news, insertAll, ← ih, keys_insert, List.count_cons]
      cases found : map.lookup key with
      | none =>
          have absent : key ∉ map.keys :=
            fun member => Finmap.lookup_eq_none.mp found (Finmap.mem_keys.mp member)
          simp only [Option.isNone_none, beq_self_eq_true, if_true,
            Finset.card_insert_of_notMem absent]
          omega
      | some value =>
          have member : key ∈ map.keys := Finmap.mem_keys.mpr (Finmap.mem_of_lookup_eq_some found)
          simp [Finset.insert_eq_of_mem member]

end Insertions
