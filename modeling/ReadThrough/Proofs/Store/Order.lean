import Mathlib.Data.List.Sort
import ReadThrough.Proofs.Store.Table
/-!
# Rows in order

Keys and values are totally ordered, and so rows are by any columns, but for rows that agree in all of
them. If rows hold their keys in the key column (`Entity.Keyed`), then the rows of a table by that column
are in the order of their keys, each key once (`Table.WellKeyed.pairwise_inOrder`), and the rows whose value
in the column is greater than a key are those whose keys come after it (`Filter.accepts_after`).
-/

namespace ReadThrough

open Std

/-! ## Keys and values -/

namespace Value

/-- The place of the kind of a value among the kinds. -/
def rank : Value → Nat
  | .int _ => 0
  | .text _ => 1
  | .bool _ => 2

/-- The integer of an integer value. -/
def int? : Value → Option Int64
  | .int n => some n
  | .text _ | .bool _ => none

/-- The text of a text value. -/
def text? : Value → Option String
  | .text s => some s
  | .int _ | .bool _ => none

/-- The truth value of a truth value. -/
def bool? : Value → Option Bool
  | .bool b => some b
  | .int _ | .text _ => none

/-- Values are ordered by their kinds first, and then by what they are. -/
theorem compare_eq : (compare : Value → Value → Ordering) =
    compareLex (compareOn rank) (compareLex (compareOn int?)
      (compareLex (compareOn text?) (compareOn bool?))) := by
  funext a b
  cases a <;> cases b <;>
    simp [compare, Value.compare, compareLex, compareOn, compareOfLessAndEq, rank, int?, text?, bool?]

instance : TransOrd Value := by
  rw [TransOrd, compare_eq]
  infer_instance

instance : LawfulEqOrd Value where
  eq_of_compare := by
    intro a b h
    cases a <;> cases b
    case int.int => exact congrArg int (LawfulEqOrd.eq_of_compare h)
    case text.text => exact congrArg text (LawfulEqOrd.eq_of_compare h)
    case bool.bool => exact congrArg bool (LawfulEqOrd.eq_of_compare h)
    all_goals cases h

end Value

namespace Key

theorem compare_eq : (compare : Key → Key → Ordering) = compareOn toValue := by
  funext a b
  exact (compare_toValue a b).symm

instance : TransOrd Key := by
  rw [TransOrd, compare_eq]
  infer_instance

theorem toValue_injective {a b : Key} (h : a.toValue = b.toValue) : a = b := by
  cases a <;> cases b <;> cases h <;> rfl

instance : LawfulEqOrd Key where
  eq_of_compare := by
    intro a b h
    rw [← compare_toValue] at h
    exact toValue_injective (LawfulEqOrd.eq_of_compare h)

/-- What does not come after a key comes before it, or is it. -/
theorem isLE_of_not_lt {a b : Key} (h : compare a b ≠ .lt) : (compare b a).isLE = true := by
  rw [OrientedOrd.eq_swap (a := b)]
  cases hab : compare a b with
  | lt => exact absurd hab h
  | eq | gt => rfl

end Key

/-! ## Rows -/

variable {ρ ω : Type}

namespace Entity

variable (e : Entity ρ)

/-- What a row holds in the key column is its key. -/
def Keyed (row : ρ) : Prop := e.value row e.keyColumn = some (e.key row).toValue

variable {e}

theorem compareOptional_eq : compareOptional = (compare : Option Value → Option Value → Ordering) := by
  funext a b
  cases a <;> cases b <;> rfl

/-- Rows are in order by one column. -/
theorem transCmp_column (e : Entity ρ) (o : Order) : TransCmp fun a b =>
    o.direction.apply (compareOptional (e.value a o.column) (e.value b o.column)) := by
  have hcolumn : TransCmp (compareOn fun row => e.value row o.column) := inferInstance
  rw [compareOptional_eq]
  cases o.direction with
  | asc => exact hcolumn
  | desc =>
    have hswap : (fun a b : ρ => Direction.desc.apply
        (compare (e.value a o.column) (e.value b o.column))) = fun a b =>
          compareOn (fun row => e.value row o.column) b a := by
      funext a b
      exact OrientedOrd.eq_swap.symm
    rw [hswap]
    exact TransCmp.opposite

instance (e : Entity ρ) (order : List Order) : TransCmp (e.compareBy order) := by
  induction order with
  | nil =>
    have hkey : TransCmp (compareOn e.key) := inferInstance
    exact hkey
  | cons o order ih =>
    have hcolumn := e.transCmp_column o
    have hlex : TransCmp (compareLex (fun a b =>
        o.direction.apply (compareOptional (e.value a o.column) (e.value b o.column)))
        (e.compareBy order)) := inferInstance
    exact hlex

/-- Rows put in order are in order. -/
theorem pairwise_sort (e : Entity ρ) (order : List Order) (rows : List ρ) :
    (rows.mergeSort fun a b => (e.compareBy order a b).isLE).Pairwise fun a b =>
      (e.compareBy order a b).isLE = true := by
  refine List.pairwise_mergeSort (fun a b c => TransCmp.isLE_trans) ?_ rows
  intro a b
  have hswap : e.compareBy order b a = (e.compareBy order a b).swap := OrientedCmp.eq_swap
  rw [hswap]
  cases e.compareBy order a b <;> rfl

/-- Rows that no column of an order tells apart are ordered by key. -/
theorem key_eq_of_compareBy {order : List Order} {a b : ρ} (h : e.compareBy order a b = .eq) :
    e.key a = e.key b := by
  induction order with
  | nil => exact LawfulEqOrd.eq_of_compare h
  | cons o order ih => exact ih (Ordering.then_eq_eq.1 h).2

/-- By the key column, rows are in the order of their keys. -/
theorem compareBy_natural {a b : ρ} (ha : e.Keyed a) (hb : e.Keyed b) :
    e.compareBy [e.natural] a b = compare (e.key a) (e.key b) := by
  have hcolumn : compareOptional (e.value a e.keyColumn) (e.value b e.keyColumn) =
      compare (e.key a) (e.key b) := by
    rw [ha, hb]
    exact Key.compare_toValue _ _
  show (compareOptional _ _).then (compare _ _) = _
  rw [natural, hcolumn]
  cases compare (e.key a) (e.key b) <;> rfl

end Entity

namespace Filter

variable {e : Entity ρ} {row : ρ}

/-- The condition that rows come after a key by the key column. -/
def after (e : Entity ρ) (k : Key) : Condition :=
  { column := e.keyColumn, comparison := .gt, value := k.toValue }

theorem accepts_append (f f' : Filter) :
    (f ++ f').accepts e row = (f.accepts e row && f'.accepts e row) := by
  rw [accepts, List.all_append]
  rfl

theorem accepts_after (h : e.Keyed row) (start : Option Key) :
    Filter.accepts (start.toList.map (after e)) e row = true ↔
      ∀ k ∈ start, compare k (e.key row) = .lt := by
  cases start with
  | none => simp [accepts]
  | some k =>
    have hholds : (after e k).holds e row = decide (compare (e.key row) k = .gt) := by
      rw [Condition.holds, after, h]
      show decide (compare _ _ = _) = _
      rw [Key.compare_toValue]
    simp [accepts, hholds, OrientedCmp.gt_iff_lt]

end Filter

/-- There is only one order in which rows are strictly in order. -/
theorem eq_of_pairwise_lt {cmp : ρ → ρ → Ordering} [OrientedCmp cmp] {rows rows' : List ρ}
    (h : rows.Pairwise fun a b => cmp a b = .lt) (h' : rows'.Pairwise fun a b => cmp a b = .lt)
    (hmem : ∀ row, row ∈ rows ↔ row ∈ rows') : rows = rows' := by
  have hasymm : Std.Asymm fun a b => cmp a b = .lt := ⟨fun a b hab hba => OrientedCmp.not_lt_of_lt hab hba⟩
  have hirrefl : Std.Irrefl fun a b => cmp a b = .lt := ⟨fun a haa => OrientedCmp.not_lt_of_lt haa haa⟩
  exact h.eq_of_mem_iff h' hmem

/-- Of rows in the order of their keys, those that do not come after one of the first are among the first. -/
theorem mem_take_of_isLE {key : ρ → Key} {rows : List ρ}
    (h : rows.Pairwise fun a b => compare (key a) (key b) = .lt) {n : Nat} {row last : ρ}
    (hrow : row ∈ rows) (hlast : last ∈ rows.take n)
    (hle : (compare (key row) (key last)).isLE = true) : row ∈ rows.take n := by
  rw [← List.take_append_drop n rows] at h hrow
  rcases List.mem_append.1 hrow with hrow | hrow
  · exact hrow
  · have hlt := (List.pairwise_append.1 h).2.2 last hlast row hrow
    exact absurd hle (OrientedCmp.not_isLE_of_lt hlt)

/-- Of rows in the order of their keys, none comes after the last. -/
theorem isLE_of_getLast? {key : ρ → Key} {rows : List ρ}
    (h : rows.Pairwise fun a b => compare (key a) (key b) = .lt) {row last : ρ} (hrow : row ∈ rows)
    (hlast : rows.getLast? = some last) : (compare (key row) (key last)).isLE = true := by
  obtain ⟨before, rfl⟩ := List.getLast?_eq_some_iff.1 hlast
  rcases List.mem_append.1 hrow with hrow | hrow
  · have hlt := (List.pairwise_append.1 h).2.2 row hrow last List.mem_cons_self
    rw [hlt]
    rfl
  · rw [List.mem_singleton.1 hrow]
    exact ReflCmp.isLE_rfl

namespace Table

variable {e : Entity ρ} {t : Table ρ ω} {f : Filter} {o : FindOptions}

/-- The rows that pass a filter, by the key column. -/
def inOrder (e : Entity ρ) (t : Table ρ ω) (f : Filter) : List ρ :=
  (t.matching e f).mergeSort fun a b => (e.compareBy [e.natural] a b).isLE

/-- The rows that pass the filter, in the order of the options. -/
def inOrderOf (e : Entity ρ) (t : Table ρ ω) (o : FindOptions) : List ρ :=
  (t.matching e o.filter).mergeSort fun a b => (e.compareBy o.order a b).isLE

/-- So many rows in order are found, from a place on, if everything in the options is declared. -/
theorem findMany_inOrderOf {n : UInt64} (hcheck : o.check e = .ok ()) (htake : o.take = some n) :
    t.findMany e o = .ok (((t.inOrderOf e o).drop o.skip.toNat).take n.toNat) := by
  rw [findMany, hcheck, htake]
  rfl

/-- The first rows by the key column are found, if the columns of the filter are declared. -/
theorem findMany_inOrder {n : UInt64} (hcheck : o.check e = .ok ())
    (horder : o.order = [e.natural]) (hskip : o.skip = 0) (htake : o.take = some n) :
    t.findMany e o = .ok ((t.inOrder e o.filter).take n.toNat) := by
  rw [findMany_inOrderOf hcheck htake, inOrderOf, horder, hskip]
  rfl

theorem length_matching_le (e : Entity ρ) (t : Table ρ ω) (f : Filter) : (t.matching e f).length ≤ t.size := by
  have hvalues : t.rows.values.length = t.size := List.length_map _
  exact hvalues ▸ List.length_filter_le _ _

theorem length_inOrder (e : Entity ρ) (t : Table ρ ω) (f : Filter) :
    (t.inOrder e f).length = (t.matching e f).length := List.length_mergeSort _

variable (ht : t.WellKeyed e)
include ht

theorem WellKeyed.mem_values {row : ρ} : row ∈ t.rows.values ↔ t.get? (e.key row) = some row := by
  constructor
  · intro h
    obtain ⟨k, hk⟩ := Dict.exists_find?_of_mem_values h
    obtain rfl := ht k row hk
    exact hk
  · intro h
    exact List.mem_map.2 ⟨_, Dict.mem_of_find? h, rfl⟩

/-- The keys of the rows are the keys under which they stand. -/
theorem WellKeyed.map_key_values : t.rows.values.map e.key = t.rows.keys := by
  rw [Dict.values, Dict.keys, List.map_map]
  refine List.map_congr_left fun entry hentry => ?_
  exact ht entry.1 entry.2 (Dict.find?_of_mem hentry)

theorem WellKeyed.mem_inOrderOf {row : ρ} :
    row ∈ t.inOrderOf e o ↔ t.get? (e.key row) = some row ∧ o.filter.accepts e row = true := by
  rw [inOrderOf, List.mem_mergeSort, matching, List.mem_filter, ht.mem_values]

theorem WellKeyed.mem_inOrder {row : ρ} :
    row ∈ t.inOrder e f ↔ t.get? (e.key row) = some row ∧ f.accepts e row = true :=
  ht.mem_inOrderOf (o := { filter := f, order := [e.natural] })

/-- Since rows are ordered by key at last, no two rows of a table are level in an order. -/
theorem WellKeyed.pairwise_inOrderOf (o : FindOptions) :
    (t.inOrderOf e o).Pairwise fun a b => e.compareBy o.order a b = .lt := by
  have hnodup : ((t.inOrderOf e o).map e.key).Nodup := by
    have hperm := ((t.matching e o.filter).mergeSort_perm fun a b => (e.compareBy o.order a b).isLE).map e.key
    refine hperm.nodup_iff.2 ?_
    have hall := t.rows.distinct
    rw [← Dict.keys, ← ht.map_key_values] at hall
    exact hall.sublist (List.filter_sublist.map e.key)
  have hle := e.pairwise_sort o.order (t.matching e o.filter)
  refine (hle.and (List.pairwise_map.1 hnodup)).imp ?_
  rintro a b ⟨hab, hne⟩
  exact (Ordering.isLE_iff_eq_lt_or_eq_eq.1 hab).resolve_right (mt Entity.key_eq_of_compareBy hne)

/-- More conditions take rows out and leave the others in their order. -/
theorem WellKeyed.inOrder_append (f f' : Filter) :
    t.inOrder e (f ++ f') = (t.inOrder e f).filter (f'.accepts e) := by
  have hsorted := ht.pairwise_inOrderOf { filter := f, order := [e.natural] }
  refine eq_of_pairwise_lt (ht.pairwise_inOrderOf { filter := f ++ f', order := [e.natural] })
    (hsorted.sublist List.filter_sublist) fun row => ?_
  rw [List.mem_filter, ht.mem_inOrder, ht.mem_inOrder, Filter.accepts_append, Bool.and_eq_true, and_assoc]

/-- Rows that hold their keys in the key column are in the order of their keys, each key once. -/
theorem WellKeyed.pairwise_inOrder (hkeyed : ∀ k row, t.get? k = some row → e.Keyed row) (f : Filter) :
    (t.inOrder e f).Pairwise fun a b => compare (e.key a) (e.key b) = .lt := by
  have hmem : ∀ row ∈ t.inOrder e f, e.Keyed row := fun row hrow => hkeyed _ _ (ht.mem_inOrder.1 hrow).1
  refine (ht.pairwise_inOrderOf { filter := f, order := [e.natural] }).imp_of_mem ?_
  intro a b ha hb hab
  rwa [Entity.compareBy_natural (hmem a ha) (hmem b hb)] at hab

end Table

end ReadThrough
