import InMemoryDB.Core.CommandFactory
import InMemoryDB.Library.Positions

/-! The slice that `LRANGE` returns, for all numbers that its indices can be. -/

namespace InMemoryDB

/-- An expression of type `int64_t`; without a value it would overflow. -/
def int64 (number : Int) : Option Int := if InInt64 number then some number else none

theorem int64_of_bounds {number : Int} (least : -2 ^ 63 ≤ number) (most : number < 2 ^ 63)
    : int64 number = some number :=
  if_pos ⟨least, most⟩

/-- The reply with all elements of a list. -/
def arrayReply (items : List Bytes) : Bytes :=
  ascii "*" ++ toDecimal items.length ++ crlf ++ items.flatMap bulkReply

namespace LRangeCommand

-----------------------------------------------------------------------------------------
-- The same code with every check that C++ leaves out
-----------------------------------------------------------------------------------------

/-- The read of a vector; without a value it would be out of bounds. -/
def elementAt (items : List Bytes) (index : Int) : Option Bytes :=
  if 0 ≤ index then items[index.toNat]? else none

/-- The loop from the clamped start to the clamped stop, with a bound for its turns. -/
def appendRange (items : List Bytes) (stop : Int) : ℕ → Int → Bytes → Option Bytes
  | 0, _, _ => none
  | fuel + 1, index, result =>
      if index ≤ stop then do
        let elem ← elementAt items index
        let next ← int64 (index + 1)
        appendRange items stop fuel next (result ++ bulkReply elem)
      else some result

/-- `start_ < 0 ? start_ + len : start_`, and the same for the stop. -/
def checkedFromEnd (len index : Int) : Option Int :=
  if index < 0 then int64 (index + len) else some index

/-- `if (e >= len) e = len - 1` -/
def checkedLast (len index : Int) : Option Int :=
  if index ≥ len then int64 (len - 1) else some index

/-- The slice as in `slice`, with no value if an expression on the way does not fit into 64 bits
or an element that is read does not exist.
-/
def checkedSlice (items : List Bytes) (start stop : Int) : Option Bytes := do
  let len ← int64 items.length
  let s ← checkedFromEnd len start
  let e ← checkedFromEnd len stop
  let s := if s < 0 then 0 else s
  let e ← checkedLast len e
  if s > e then some emptyArrayReply
  else do
    let distance ← int64 (e - s)
    let count ← int64 (distance + 1)
    appendRange items e (items.length + 1) s (ascii "*" ++ toDecimal count ++ crlf)

-----------------------------------------------------------------------------------------
-- What the slice should be
-----------------------------------------------------------------------------------------

/-- A negative index counts from the end. -/
def fromEnd (length index : Int) : Int := if index < 0 then index + length else index

/-- The elements whose positions are not in front of the start and not behind the stop. -/
def selected (items : List Bytes) (start stop : Int) : List Bytes :=
  Positions.between (max 0 (fromEnd items.length start))
    (min (items.length - 1) (fromEnd items.length stop)) items

-----------------------------------------------------------------------------------------
-- The loop
-----------------------------------------------------------------------------------------

/-- With an element for every turn, the loop appends the elements from its index to its stop; by
induction on their number.
-/
theorem appendRange_eq {items : List Bytes} {stop : Int} (inside : stop < items.length)
    (short : (items.length : Int) < 2 ^ 63) (count fuel : ℕ) (index : ℕ) (result : Bytes)
    (left : stop + 1 - index = count) (enough : count < fuel)
    : appendRange items stop fuel index result
      = some (result ++ ((items.drop index).take count).flatMap bulkReply) := by
  induction count generalizing fuel index result with
  | zero =>
      obtain ⟨turns, rfl⟩ := Nat.exists_eq_add_of_lt enough
      have ended : ¬ (index : Int) ≤ stop := by omega
      simp [appendRange, ended]
  | succ count ih =>
      obtain ⟨turns, rfl⟩ := Nat.exists_eq_add_of_lt enough
      have goes : (index : Int) ≤ stop := by omega
      have bound : index < items.length := by omega
      have found : elementAt items index = some items[index] := by
        simp [elementAt, bound]
      have fits : int64 ((index : Int) + 1) = some ((index + 1 : ℕ) : Int) :=
        int64_of_bounds (by omega) (by omega)
      have later := ih (count + 1 + turns) (index + 1) (result ++ bulkReply items[index])
        (by omega) (by omega)
      simp only [appendRange, goes, if_true, found, fits, Option.bind_eq_bind, Option.bind_some]
      rw [later, List.drop_eq_getElem_cons bound, List.take_succ_cons, List.flatMap_cons,
        List.append_assoc]

-----------------------------------------------------------------------------------------
-- The slice
-----------------------------------------------------------------------------------------

theorem clamp_front (index : Int) : (if index < 0 then 0 else index) = max 0 index := by
  split <;> omega

theorem clamp_back (length index : Int)
    : (if index ≥ length then length - 1 else index) = min (length - 1) index := by
  split <;> omega

/-- Reads at successive positions are a stretch of the list. -/
theorem map_getD_range {items : List Bytes} {start count : ℕ}
    (inside : start + count ≤ items.length)
    : ((List.range count).map fun turn => items.getD (start + turn) [])
      = (items.drop start).take count := by
  apply List.ext_getElem
  · simp only [List.length_map, List.length_range, List.length_take, List.length_drop]
    omega
  · intro turn here there
    have bound : start + turn < items.length := by
      simp only [List.length_map, List.length_range] at here
      omega
    simp [List.getD_eq_getElem?_getD, bound]

/-- From a clamped start to a clamped stop, the elements stand together. -/
theorem selected_eq {items : List Bytes} {start stop s e : Int}
    (first : s = max 0 (fromEnd items.length start))
    (last : e = min ((items.length : Int) - 1) (fromEnd items.length stop))
    : selected items start stop = (items.drop s.toNat).take (e + 1 - s).toNat := by
  rw [selected, ← first, ← last]
  exact Positions.between_eq (by omega) items

theorem length_selected {items : List Bytes} {start stop s e : Int}
    (first : s = max 0 (fromEnd items.length start))
    (last : e = min ((items.length : Int) - 1) (fromEnd items.length stop)) (order : s ≤ e)
    : ((selected items start stop).length : Int) = e - s + 1 := by
  rw [selected_eq first last, List.length_take, List.length_drop]
  omega

theorem selected_eq_nil {items : List Bytes} {start stop s e : Int}
    (first : s = max 0 (fromEnd items.length start))
    (last : e = min ((items.length : Int) - 1) (fromEnd items.length stop)) (order : e < s)
    : selected items start stop = [] := by
  rw [selected, ← first, ← last]
  exact Positions.between_eq_nil order items

/-- The slice is the array of the selected elements. -/
theorem slice_eq (items : List Bytes) (start stop : Int)
    : slice items start stop = arrayReply (selected items start stop) := by
  simp only [slice, clamp_front, clamp_back]
  generalize first : max 0 (if start < 0 then start + (items.length : Int) else start) = s
  generalize last : min ((items.length : Int) - 1) (if stop < 0 then stop + items.length else stop)
    = e
  split
  · rename_i order
    rw [selected_eq_nil first.symm last.symm order]
    rfl
  · rename_i order
    have inside : s.toNat + (e - s + 1).toNat ≤ items.length := by omega
    have reads
        : ((List.range (e - s + 1).toNat).flatMap fun turn =>
            bulkReply (items.getD (s + (turn : Int)).toNat []))
          = (selected items start stop).flatMap bulkReply := by
      rw [selected_eq first.symm last.symm, show e + 1 - s = e - s + 1 by omega,
        ← map_getD_range inside, List.flatMap_map]
      simp only [List.bind_eq_flatMap, List.pure_def, List.flatMap_assoc, List.flatMap_singleton]
      apply List.flatMap_congr
      intro turn member
      rw [show (s + (turn : Int)).toNat = s.toNat + turn by omega]
    rw [reads, ← length_selected first.symm last.symm (by omega)]
    rfl

/-- No check fails, and the checked slice is the array of the selected elements. -/
theorem checkedSlice_eq {items : List Bytes} {start stop : Int}
    (short : (items.length : Int) < 2 ^ 63) (bounded : InInt64 start) (bounded' : InInt64 stop)
    : checkedSlice items start stop = some (arrayReply (selected items start stop)) := by
  have fromEnd_fits {index : Int} (bounded : InInt64 index)
      : checkedFromEnd items.length index = some (fromEnd items.length index) := by
    unfold InInt64 at bounded
    unfold checkedFromEnd fromEnd
    split
    · exact int64_of_bounds (by omega) (by omega)
    · rfl
  have last_fits (index : Int)
      : checkedLast items.length index = some (min ((items.length : Int) - 1) index) := by
    rw [← clamp_back]
    unfold checkedLast
    split
    · exact int64_of_bounds (by omega) (by omega)
    · rfl
  have length_fits : int64 (items.length : Int) = some (items.length : Int) :=
    int64_of_bounds (by omega) short
  simp only [checkedSlice, length_fits, fromEnd_fits bounded, fromEnd_fits bounded', last_fits,
    clamp_front, Option.bind_eq_bind, Option.bind_some]
  generalize first : max 0 (fromEnd items.length start) = s
  generalize last : min ((items.length : Int) - 1) (fromEnd items.length stop) = e
  split
  · rename_i order
    rw [selected_eq_nil first.symm last.symm order]
    rfl
  · rename_i order
    have distance_fits : int64 (e - s) = some (e - s) := int64_of_bounds (by omega) (by omega)
    have count_fits : int64 (e - s + 1) = some (e - s + 1) :=
      int64_of_bounds (by omega) (by omega)
    obtain ⟨index, rfl⟩ := Int.eq_ofNat_of_zero_le (show 0 ≤ s by omega)
    simp only [distance_fits, count_fits, Option.bind_some]
    rw [appendRange_eq (by omega) short (e + 1 - index).toNat (items.length + 1) index _
      (by omega) (by omega), ← length_selected first.symm last.symm (by omega)]
    rw [arrayReply, selected_eq first.symm last.symm, Int.toNat_natCast]

/-- `LRANGE` on a live list of any length that a list can have: the reply has exactly the
elements whose positions are within the indices, in their order, and on the way nothing
overflows and nothing is read outside of the list.
-/
theorem exact_slice (now : Int) (key : Bytes) {start stop : Int} (router : ShardRouter)
    (aof : AofLogger) {found : CacheAlignedValue} {items : List Bytes}
    (live : liveEntry now (router.entry key) = some found) (holds : found.data = .list items)
    (short : (items.length : Int) < 2 ^ 63) (bounded : InInt64 start) (bounded' : InInt64 stop)
    : (LRangeCommand.execute now key start stop router aof).reply
        = arrayReply (selected items start stop)
      ∧ checkedSlice items start stop
        = some (LRangeCommand.execute now key start stop router aof).reply := by
  have replied : (LRangeCommand.execute now key start stop router aof).reply
      = arrayReply (selected items start stop) := by
    simp only [LRangeCommand.execute, ShardRouter.findLive_shardForKey, live, holds, slice_eq]
  exact ⟨replied, replied ▸ checkedSlice_eq short bounded bounded'⟩

/-- Both indices beyond the ends of the list: everything is in between. -/
theorem exact_slice_wide
    : (LRangeCommand.execute 0 (ascii "k") (-2 ^ 63) (2 ^ 63 - 1)
          ((ShardRouter.construct 1024 0).putShard (ascii "k")
            ⟨1024, Finmap.singleton (ascii "k") (.new (.list [ascii "a", ascii "b"]) 10 0)⟩)
          {}).reply
        = ascii "*2\r\n$1\r\na\r\n$1\r\nb\r\n" := by
  have exact := @exact_slice 0 (ascii "k") (-2 ^ 63) (2 ^ 63 - 1)
    ((ShardRouter.construct 1024 0).putShard (ascii "k")
      ⟨1024, Finmap.singleton (ascii "k") (.new (.list [ascii "a", ascii "b"]) 10 0)⟩)
    {} (.new (.list [ascii "a", ascii "b"]) 10 0) [ascii "a", ascii "b"] (by decide +kernel) rfl
    (by decide) (by decide) (by decide)
  exact exact.1.trans (by decide +kernel)

end LRangeCommand

end InMemoryDB
