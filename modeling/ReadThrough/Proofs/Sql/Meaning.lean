import Mathlib.Data.List.Basic
import ReadThrough.Proofs.Store.Order
import ReadThrough.Proofs.Text.Bytes
import ReadThrough.Sql.Call
/-!
# What a query means

A database keeps the rows of a table in no order that matters, and a column without a value holds a null. A
comparison with a null is not true. A null comes after all values, hence first in a descending order. Texts
are ordered by their bytes, and values of different kinds not at all. Rows that no column of an order tells
apart may be delivered in either order, so that there is more than one answer to some queries
(`Query.Answers`).
-/

namespace ReadThrough.Sql

open Std

/-! ## Rows of a table -/

/-- Whether a value comes before another of its kind. -/
def valueBefore : Value → Value → Bool
  | .int a, .int b => a < b
  | .text a, .text b => textBytes a < textBytes b
  | .bool a, .bool b => !a && b
  | _, _ => false

/-- Whether what is in a column comes before what is in another. A null comes after every value. -/
def cellBefore : Option Value → Option Value → Bool
  | some a, some b => valueBefore a b
  | some _, none => true
  | none, _ => false

/-- Whether what is in a column comes before what is in another, in a direction. -/
def cellBeforeIn : Direction → Option Value → Option Value → Bool
  | .asc, a, b => cellBefore a b
  | .desc, a, b => cellBefore b a

/-- Whether a comparison of what is in a column with a value is true. -/
def comparisonTrue : Comparison → Option Value → Value → Bool
  | _, none, _ => false
  | .eq, some a, b => a = b
  | .gt, some a, b => valueBefore b a

/-- Tables of rows of one type. -/
structure Database (ρ : Type) where
  /-- The rows of a table, as they happen to be stored. -/
  rows : String → List ρ
  /-- What a row holds in a column, unless that is a null. -/
  value : ρ → String → Option Value

namespace Database

variable {ρ : Type}

/-- The rows of a table for which all conditions are true. -/
def chosen (db : Database ρ) (table : String) (f : Filter) : List ρ :=
  (db.rows table).filter fun row => f.all fun c => comparisonTrue c.comparison (db.value row c.column) c.value

/-- Whether a row must be delivered before another. -/
def before (db : Database ρ) : List Order → ρ → ρ → Bool
  | [], _, _ => false
  | o :: order, a, b =>
    cellBeforeIn o.direction (db.value a o.column) (db.value b o.column) ||
      (db.value a o.column = db.value b o.column && db.before order a b)

end Database

/-! ## Queries and their answers -/

/-- What the text of a query for one column says. -/
structure Listing where
  column : String
  table : String
  conditions : Filter
  order : List Order
  limit : Option Nat
  offset : Nat
  deriving DecidableEq, Repr

/-- What the text of a query says. -/
inductive Query where
  | count (table : String) (conditions : Filter)
  | list (l : Listing)
  deriving DecidableEq, Repr

variable {ρ : Type}

/-- The part of some rows that a query asks for. -/
def Listing.window {α : Type} (l : Listing) (rows : List α) : List α :=
  let rest := rows.drop l.offset
  match l.limit with
  | some n => rest.take n
  | none => rest

theorem Listing.mem_of_mem_window {α : Type} (l : Listing) {rows : List α} {row : α}
    (h : row ∈ l.window rows) : row ∈ rows := by
  unfold Listing.window at h
  split at h
  · exact List.mem_of_mem_drop (List.mem_of_mem_take h)
  · exact List.mem_of_mem_drop h

/-- Rows that may be delivered for a query: a part of all that meet the conditions, put in order. -/
def Listing.Delivers (l : Listing) (db : Database ρ) (rows : List ρ) : Prop :=
  ∃ sorted : List ρ, sorted.Perm (db.chosen l.table l.conditions) ∧
    (sorted.Pairwise fun a b => db.before l.order b a = false) ∧ rows = l.window sorted

/-- Answers that a database may give to a query. They have one column. -/
inductive Query.Answers (db : Database ρ) : Query → List (Option Value) → Prop
  | count {table : String} {f : Filter} {n : Int64} (h : n.toInt = (db.chosen table f).length) :
    Answers db (.count table f) [some (.int n)]
  | list {l : Listing} {rows : List ρ} (h : l.Delivers db rows) :
    Answers db (.list l) (rows.map (db.value · l.column))

/-! ## Values of one kind -/

/-- Values of one kind stand in a database as they do in memory. -/
theorem valueBefore_eq {a b : Value} (h : a.rank = b.rank) :
    valueBefore a b = decide (compare a b = .lt) := by
  cases a <;> cases b <;> cases h
  case int.int.refl a b =>
    exact decide_eq_decide.2 compareOfLessAndEq_eq_lt.symm
  case text.text.refl a b =>
    exact decide_eq_decide.2 ((lt_iff_textBytes_lt a b).symm.trans compareOfLessAndEq_eq_lt.symm)
  case bool.bool.refl a b =>
    cases a <;> cases b <;> rfl

/-- Columns that both have a value, or both have none, stand in a database as they do in memory. -/
theorem cellBeforeIn_eq (d : Direction) {x y : Option Value} (hsome : x.isSome = y.isSome)
    (hrank : ∀ a ∈ x, ∀ b ∈ y, a.rank = b.rank) :
    cellBeforeIn d x y = decide (d.apply (compareOptional x y) = .lt) := by
  cases x with
  | none =>
    cases y with
    | none => cases d <;> rfl
    | some b => cases hsome
  | some a =>
    cases y with
    | none => cases hsome
    | some b =>
      have hab := hrank a rfl b rfl
      cases d with
      | asc => exact valueBefore_eq hab
      | desc =>
        show valueBefore b a = decide ((compare a b).swap = .lt)
        rw [valueBefore_eq hab.symm, OrientedOrd.eq_swap (a := b)]

/-- Nothing stands before what is equal to it. -/
theorem cellBeforeIn_self (d : Direction) (x : Option Value) : cellBeforeIn d x x = false := by
  rw [cellBeforeIn_eq d rfl fun a ha b hb => congrArg _ (Option.some_inj.1 (ha.symm.trans hb)),
    Entity.compareOptional_eq, ReflOrd.compare_self]
  cases d <;> rfl

theorem Database.before_self {ρ : Type} (db : Database ρ) (order : List Order) (a : ρ) :
    db.before order a a = false := by
  induction order with
  | nil => rfl
  | cons o order ih => simp [before, cellBeforeIn_self, ih]

/-- A column with a value and one without stand in a database the other way around. -/
theorem cellBeforeIn_swap (d : Direction) {x y : Option Value} (hsome : x.isSome ≠ y.isSome) :
    cellBeforeIn d y x = decide (d.apply (compareOptional x y) = .lt) := by
  cases x <;> cases y
  case some.none | none.some => cases d <;> rfl
  all_goals exact absurd rfl hsome

/-- A comparison with a value of the same kind is true where it holds in memory. -/
theorem comparisonTrue_eq (comparison : Comparison) {a b : Value} (h : a.rank = b.rank) :
    comparisonTrue comparison (some a) b = comparison.holds a b := by
  cases comparison with
  | eq => rfl
  | gt =>
    show valueBefore b a = decide (compare a b = .gt)
    rw [valueBefore_eq h.symm]
    exact decide_eq_decide.2 OrientedCmp.gt_iff_lt.symm

end ReadThrough.Sql
