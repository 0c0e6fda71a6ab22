import Mathlib.Data.List.Basic
import Mathlib.Data.List.Pairwise
import ReadThrough.Proofs.Sql.Meaning
import ReadThrough.Proofs.Sql.Select
/-!
# The same rows in a database and in memory

Where a database holds the rows of a table in memory (`Mirrors`), conditions are true of the same rows in both
(`Mirrors.chosen_perm`). Orders differ: in memory no value comes first, in a database it comes last. So rows
are in the same order if where they first differ both have a value (`Mirrors.before_eq`), and in opposite
orders if one of them has none (`Mirrors.before_eq_of_not_level`).
-/

namespace ReadThrough

open Std

variable {ρ ω : Type}

namespace Entity

variable {e : Entity ρ}

/-- Whether two rows both have a value, or both have none, in the first column of an order in which they
differ. -/
def level (e : Entity ρ) : List Order → ρ → ρ → Bool
  | [], _, _ => true
  | o :: order, a, b =>
    (e.value a o.column).isSome = (e.value b o.column).isSome &&
      (e.value a o.column ≠ e.value b o.column || e.level order a b)

theorem level_self (e : Entity ρ) (order : List Order) (a : ρ) : e.level order a a = true := by
  induction order with
  | nil => rfl
  | cons o order ih => simp [level, ih]

theorem level_comm (e : Entity ρ) (order : List Order) (a b : ρ) : e.level order a b = e.level order b a := by
  induction order with
  | nil => rfl
  | cons o order ih => simp only [level, ih, eq_comm, ne_comm]

theorem level_withTiebreak {a b : ρ} (ha : e.Keyed a) (hb : e.Keyed b) (order : List Order) :
    e.level (Sql.withTiebreak e order) a b = e.level order a b := by
  have happend : e.level (order ++ [e.natural]) a b = e.level order a b := by
    induction order with
    | nil =>
      rw [Keyed] at ha hb
      simp [level, natural, ha, hb]
    | cons o order ih => rw [List.cons_append, level, level, ih]
  unfold Sql.withTiebreak
  split
  · exact happend
  · rfl

/-- The key column adds nothing to an order, since rows are ordered by key at last. -/
theorem compareBy_withTiebreak {a b : ρ} (ha : e.Keyed a) (hb : e.Keyed b) (order : List Order) :
    e.compareBy (Sql.withTiebreak e order) a b = e.compareBy order a b := by
  have happend : e.compareBy (order ++ [e.natural]) a b = e.compareBy order a b := by
    induction order with
    | nil => exact compareBy_natural ha hb
    | cons o order ih => rw [List.cons_append, compareBy, compareBy, ih]
  unfold Sql.withTiebreak
  split
  · exact happend
  · rfl

end Entity

/-- Of any two rows that pass the filter, both or none have a value in the first column of the order in which
they differ. -/
def Table.Level (e : Entity ρ) (t : Table ρ ω) (o : FindOptions) : Prop :=
  ∀ a ∈ t.matching e o.filter, ∀ b ∈ t.matching e o.filter, e.level o.order a b = true

namespace Sql

/-- Two rows are in the order of one column, or of what follows if the column does not tell them apart. -/
theorem or_and_eq_then (d : Direction) {x y : Option Value} {cell rest : Bool} {r : Ordering}
    (hcell : cell = decide (d.apply (compareOptional x y) = .lt)) (hrest : x = y → rest = decide (r = .lt)) :
    (cell || (decide (x = y) && rest)) = decide ((d.apply (compareOptional x y)).then r = .lt) := by
  rw [hcell]
  by_cases hxy : x = y
  · have htie : d.apply (compareOptional x y) = .eq := by
      rw [hxy, Entity.compareOptional_eq, ReflOrd.compare_self]
      cases d <;> rfl
    rw [htie, hrest hxy, decide_eq_true hxy]
    rfl
  · have hne : d.apply (compareOptional x y) ≠ .eq := by
      intro htie
      rw [Entity.compareOptional_eq] at htie
      refine hxy (LawfulEqOrd.eq_of_compare (a := x) ?_)
      cases d with
      | asc => exact htie
      | desc => exact Ordering.swap_eq_eq.1 htie
    rw [decide_eq_false hxy]
    cases hc : d.apply (compareOptional x y) with
    | eq => exact absurd hc hne
    | lt | gt => rfl

/-- A database holds the rows of a table in memory. Values of one column are of one kind, and keys of the
kind that the mapping says. -/
structure Mirrors (db : Database ρ) (m : Mapping ρ) (t : Table ρ ω) (kind : String → Nat) : Prop where
  rows : (db.rows m.table).Perm t.rows.values
  value : ∀ row ∈ t.rows.values, ∀ c, m.entity.hasColumn c = true →
    db.value row c = m.entity.value row c
  kinds : ∀ row ∈ t.rows.values, ∀ c, m.entity.hasColumn c = true →
    ∀ v ∈ m.entity.value row c, v.rank = kind c
  wellKeyed : t.WellKeyed m.entity
  keyed : ∀ row ∈ t.rows.values, m.entity.Keyed row
  admits : ∀ row ∈ t.rows.values, m.keyKind.admits (m.entity.key row) = true
  /-- There are fewer rows than a count can say, in a database as in memory. -/
  size : t.size < 2 ^ 63

namespace Mirrors

variable {db : Database ρ} {m : Mapping ρ} {t : Table ρ ω} {kind : String → Nat} (h : Mirrors db m t kind)
include h

/-! ## Conditions -/

/-- The conditions of a filter are true of the rows that pass it in memory. -/
theorem chosen_perm {f : Filter} (hf : ∀ c ∈ f, m.entity.hasColumn c.column = true)
    (hkind : ∀ c ∈ f, c.value.rank = kind c.column) :
    (db.chosen m.table f).Perm (t.matching m.entity f) := by
  refine (h.rows.filter _).trans (List.Perm.of_eq (List.filter_congr fun row hrow => ?_))
  rw [Filter.accepts, Bool.eq_iff_iff, List.all_eq_true, List.all_eq_true]
  refine forall₂_congr fun c hc => ?_
  rw [h.value row hrow _ (hf c hc), Condition.holds]
  cases hv : m.entity.value row c.column with
  | none => rfl
  | some v =>
    have hrank := h.kinds row hrow _ (hf c hc) v hv
    rw [comparisonTrue_eq c.comparison (hrank.trans (hkind c hc).symm)]

/-! ## Orders -/

variable {a b : ρ} (ha : a ∈ t.rows.values) (hb : b ∈ t.rows.values)
include ha hb

theorem cellBeforeIn_eq {o : Order} (ho : m.entity.hasColumn o.column = true)
    (hsome : (m.entity.value a o.column).isSome = (m.entity.value b o.column).isSome) :
    cellBeforeIn o.direction (m.entity.value a o.column) (m.entity.value b o.column) =
      decide (o.direction.apply (compareOptional (m.entity.value a o.column) (m.entity.value b o.column)) =
        .lt) := by
  refine Sql.cellBeforeIn_eq _ hsome fun v hv w hw => ?_
  rw [h.kinds a ha _ ho v hv, h.kinds b hb _ ho w hw]

/-- Rows that both have a value where they first differ are in the same order in a database. -/
theorem before_eq {order : List Order} (hdeclared : ∀ o ∈ order, m.entity.hasColumn o.column = true)
    (hkey : ∃ o ∈ order, o.column = m.entity.keyColumn) (hne : m.entity.key a ≠ m.entity.key b)
    (hlevel : m.entity.level order a b = true) :
    db.before order a b = decide (m.entity.compareBy order a b = .lt) := by
  induction order with
  | nil =>
    obtain ⟨o, ho, -⟩ := hkey
    cases ho
  | cons o order ih =>
    have ho := hdeclared o List.mem_cons_self
    simp only [Entity.level, Bool.and_eq_true, decide_eq_true_eq, Bool.or_eq_true] at hlevel
    rw [Database.before, h.value a ha _ ho, h.value b hb _ ho]
    refine or_and_eq_then _ (h.cellBeforeIn_eq ha hb ho hlevel.1) fun htie => ?_
    -- The key column tells the rows apart, so it is still to come.
    have hlater : ∃ o ∈ order, o.column = m.entity.keyColumn := by
      obtain ⟨o', ho', hcolumn⟩ := hkey
      rcases List.mem_cons.1 ho' with rfl | ho'
      · rw [hcolumn, h.keyed a ha, h.keyed b hb, Option.some_inj] at htie
        exact absurd (Key.toValue_injective htie) hne
      · exact ⟨o', ho', hcolumn⟩
    exact ih (fun o' ho' => hdeclared o' (List.mem_cons_of_mem _ ho')) hlater
      (hlevel.2.resolve_left (not_not_intro htie))

/-- Rows of which one has no value where they first differ are in opposite orders. -/
theorem before_eq_of_not_level {order : List Order}
    (hdeclared : ∀ o ∈ order, m.entity.hasColumn o.column = true)
    (hlevel : m.entity.level order a b = false) :
    db.before order b a = decide (m.entity.compareBy order a b = .lt) := by
  induction order with
  | nil => cases hlevel
  | cons o order ih =>
    have ho := hdeclared o List.mem_cons_self
    rw [Database.before, h.value a ha _ ho, h.value b hb _ ho]
    simp only [eq_comm (a := m.entity.value b o.column)]
    by_cases hsome : (m.entity.value a o.column).isSome = (m.entity.value b o.column).isSome
    · simp only [Entity.level, hsome, decide_true, Bool.true_and, Bool.or_eq_false_iff, decide_eq_false_iff_not,
        not_not] at hlevel
      refine or_and_eq_then _ ?_ fun _ => ih (fun o' ho' => hdeclared o' (List.mem_cons_of_mem _ ho')) hlevel.2
      have hcell := h.cellBeforeIn_eq ha hb ho hsome
      rwa [hlevel.1] at hcell ⊢
    · exact or_and_eq_then _ (cellBeforeIn_swap _ hsome) fun htie => absurd (congrArg _ htie) hsome

omit ha hb

/-- A row of a table is found by its key. -/
theorem eq_of_key (ha : a ∈ t.rows.values) (hb : b ∈ t.rows.values)
    (hab : m.entity.key a = m.entity.key b) : a = b := by
  have hfound := h.wellKeyed.mem_values.1 ha
  rw [hab, h.wellKeyed.mem_values.1 hb] at hfound
  exact (Option.some_inj.1 hfound).symm

end Mirrors

/-- Of two rows in a list the one follows the other. -/
theorem rel_or_rel_of_pairwise {R : ρ → ρ → Prop} {rows : List ρ} (h : rows.Pairwise R) {a b : ρ}
    (ha : a ∈ rows) (hb : b ∈ rows) (hne : a ≠ b) : R a b ∨ R b a := by
  have hsymm : Std.Symm fun a b => R a b ∨ R b a := ⟨fun _ _ => Or.symm⟩
  have hboth : rows.Pairwise fun a b => R a b ∨ R b a := h.imp Or.inl
  exact hboth.forall ha hb hne

/-! ## Windows -/

/-- What a query for keys is to say. -/
def listing (m : Mapping ρ) (o : FindOptions) : Listing where
  column := m.entity.keyColumn
  table := m.table
  conditions := o.filter
  order := withTiebreak m.entity o.order
  limit := o.take.map fun n => min n.toNat (2 ^ 63 - 1)
  offset := min o.skip.toNat (2 ^ 63 - 1)

/-- Numbers of rows are bounded by more than there are rows, so that the bound makes no difference. -/
theorem window_listing (m : Mapping ρ) (o : FindOptions) {rows : List ρ} (hlength : rows.length < 2 ^ 63) :
    (listing m o).window rows = match o.take with
      | some n => (rows.drop o.skip.toNat).take n.toNat
      | none => rows.drop o.skip.toNat := by
  have hdrop : rows.drop (min o.skip.toNat (2 ^ 63 - 1)) = rows.drop o.skip.toNat :=
    List.drop_eq_drop_iff.2 (by omega)
  simp only [Listing.window, listing, hdrop]
  cases o.take with
  | none => rfl
  | some n =>
    refine List.take_eq_take_iff.2 ?_
    have hrest : (rows.drop o.skip.toNat).length ≤ rows.length := by
      rw [List.length_drop]
      omega
    show min (min n.toNat (2 ^ 63 - 1)) _ = _
    omega

/-- A table finds the part of the rows in order that the options ask for. -/
theorem findKeys_eq {t : Table ρ ω} (hsize : t.size < 2 ^ 63) {o : FindOptions} (ho : o.Declared m.entity) :
    t.findKeys m.entity o =
      .ok (((listing m o).window (t.inOrderOf m.entity o)).map m.entity.key) := by
  have hlength : (t.inOrderOf m.entity o).length < 2 ^ 63 := by
    rw [Table.inOrderOf, List.length_mergeSort]
    exact Nat.lt_of_le_of_lt (t.length_matching_le m.entity o.filter) hsize
  rw [Table.findKeys, Table.findMany, ho.check, window_listing m o hlength]
  rfl

namespace Mirrors

variable {db : Database ρ} {m : Mapping ρ} {t : Table ρ ω} {kind : String → Nat} (h : Mirrors db m t kind)
  {o : FindOptions} (ho : o.Declared m.entity) (hkind : ∀ c ∈ o.filter, c.value.rank = kind c.column)
include h ho

/-- Rows of which the one has a value where the other has are in the same order in a database. -/
theorem before_eq_false_iff {a b : ρ} (ha : a ∈ t.rows.values) (hb : b ∈ t.rows.values)
    (hlevel : m.entity.level o.order a b = true) :
    db.before (withTiebreak m.entity o.order) b a = false ↔ (m.entity.compareBy o.order a b).isLE = true := by
  by_cases hab : m.entity.key a = m.entity.key b
  · obtain rfl := h.eq_of_key ha hb hab
    simp [db.before_self, ReflCmp.isLE_rfl]
  · have hlevel' : m.entity.level (withTiebreak m.entity o.order) b a = true := by
      rwa [Entity.level_withTiebreak (h.keyed b hb) (h.keyed a ha), Entity.level_comm]
    rw [h.before_eq hb ha (declared_withTiebreak ho) (exists_keyColumn_mem _ _) (Ne.symm hab) hlevel',
      Entity.compareBy_withTiebreak (h.keyed b hb) (h.keyed a ha), decide_eq_false_iff_not,
      ← Ordering.isGE_iff_ne_lt, OrientedCmp.isGE_iff_isLE]

include hkind

/-- If no row without a value meets one with a value, a database puts rows in one order only, which is the
one in memory. -/
theorem sorted_iff (hlevel : t.Level m.entity o) {sorted : List ρ} :
    (sorted.Perm (db.chosen m.table o.filter) ∧
      sorted.Pairwise fun a b => db.before (withTiebreak m.entity o.order) b a = false) ↔
    sorted = t.inOrderOf m.entity o := by
  have hmem : ∀ row ∈ t.matching m.entity o.filter, row ∈ t.rows.values :=
    fun row hrow => (List.mem_filter.1 hrow).1
  have hchosen := h.chosen_perm ho.filter hkind
  have hpairwise : ∀ rows : List ρ, rows.Perm (t.matching m.entity o.filter) →
      ((rows.Pairwise fun a b => db.before (withTiebreak m.entity o.order) b a = false) ↔
        rows.Pairwise fun a b => (m.entity.compareBy o.order a b).isLE = true) := by
    intro rows hrows
    refine List.Pairwise.iff_of_mem fun {a b} ha hb => ?_
    have ha := hrows.mem_iff.1 ha
    have hb := hrows.mem_iff.1 hb
    exact h.before_eq_false_iff ho (hmem a ha) (hmem b hb) (hlevel a ha b hb)
  have hsort := List.mergeSort_perm (t.matching m.entity o.filter)
    fun a b => (m.entity.compareBy o.order a b).isLE
  have hinorder := m.entity.pairwise_sort o.order (t.matching m.entity o.filter)
  constructor
  · rintro ⟨hperm, hpair⟩
    have hperm := hperm.trans hchosen
    refine List.Perm.eq_of_pairwise ?_ ((hpairwise sorted hperm).1 hpair) hinorder (hperm.trans hsort.symm)
    intro a b ha hb hab hba
    have ha := hmem a (hperm.mem_iff.1 ha)
    have hb := hmem b (hsort.mem_iff.1 hb)
    exact h.eq_of_key ha hb (Entity.key_eq_of_compareBy (OrientedCmp.isLE_antisymm hab hba))
  · rintro rfl
    exact ⟨hsort.trans hchosen.symm, (hpairwise _ hsort).2 hinorder⟩

omit hkind

/-- Rows that follow one another in memory are the other way around in a database, if one of them has no
value where they first differ. -/
theorem before_of_not_level {a b : ρ} (ha : a ∈ t.rows.values) (hb : b ∈ t.rows.values)
    (hlevel : m.entity.level o.order a b = false) (hle : (m.entity.compareBy o.order a b).isLE = true) :
    db.before (withTiebreak m.entity o.order) b a = true := by
  have hlevel' : m.entity.level (withTiebreak m.entity o.order) a b = false := by
    rwa [Entity.level_withTiebreak (h.keyed a ha) (h.keyed b hb)]
  rw [h.before_eq_of_not_level ha hb (declared_withTiebreak ho) hlevel',
    Entity.compareBy_withTiebreak (h.keyed a ha) (h.keyed b hb), decide_eq_true_eq]
  refine (Ordering.isLE_iff_eq_lt_or_eq_eq.1 hle).resolve_right fun htie => ?_
  obtain rfl := h.eq_of_key ha hb (Entity.key_eq_of_compareBy htie)
  rw [Entity.level_self] at hlevel
  cases hlevel

/-- If the order in memory is one that a database may put rows in, then no row without a value meets one
with a value. -/
theorem level_of_pairwise (hpair : (t.inOrderOf m.entity o).Pairwise fun a b =>
      db.before (withTiebreak m.entity o.order) b a = false) : t.Level m.entity o := by
  intro a ha b hb
  by_contra hlevel
  rw [Bool.not_eq_true] at hlevel
  have hne : a ≠ b := by
    rintro rfl
    rw [Entity.level_self] at hlevel
    cases hlevel
  have ha' := (List.mem_filter.1 ha).1
  have hb' := (List.mem_filter.1 hb).1
  have hboth := (m.entity.pairwise_sort o.order (t.matching m.entity o.filter)).and hpair
  -- One of the two rows follows the other, in memory and in the database.
  rcases rel_or_rel_of_pairwise hboth (List.mem_mergeSort.2 ha) (List.mem_mergeSort.2 hb) hne with hab | hba
  · rw [h.before_of_not_level ho ha' hb' hlevel hab.1] at hab
    cases hab.2
  · rw [h.before_of_not_level ho hb' ha' (m.entity.level_comm o.order a b ▸ hlevel) hba.1] at hba
    cases hba.2

end Mirrors

end Sql

end ReadThrough
