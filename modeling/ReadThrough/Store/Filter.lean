import ReadThrough.Entity
import ReadThrough.Store.Error
import ReadThrough.Store.Options
/-!
# Filters and orders applied to rows

A row passes a filter when every condition holds of what it has in the column; a column without a
value meets no condition. Rows are ordered column by column, a row without a value before one with a
value, and at last by key, so that no two rows of a table are equal in any order.
-/

namespace ReadThrough

variable {ρ : Type}

/-- Whether a condition holds of a row. -/
def Condition.holds (e : Entity ρ) (row : ρ) (c : Condition) : Bool :=
  match e.value row c.column with
  | some v => c.comparison.holds v c.value
  | none => false

/-- Whether every condition holds of a row. -/
def Filter.accepts (f : Filter) (e : Entity ρ) (row : ρ) : Bool := f.all (Condition.holds e row)

/-- The order of two columns; no value comes first. -/
def compareOptional : Option Value → Option Value → Ordering
  | none, none => .eq
  | none, some _ => .lt
  | some _, none => .gt
  | some a, some b => compare a b

/-- The order of two rows: by the columns in turn, then by key. -/
def Entity.compareBy (e : Entity ρ) : List Order → ρ → ρ → Ordering
  | [], a, b => compare (e.key a) (e.key b)
  | o :: order, a, b =>
    (o.direction.apply (compareOptional (e.value a o.column) (e.value b o.column))).then
      (e.compareBy order a b)

/-- Rows in the order of their keys. -/
def Entity.natural (e : Entity ρ) : Order := { column := e.keyColumn }

namespace FindOptions

/-- The columns that the options name: those of the filter, then those of the order. -/
def columns (o : FindOptions) : List String :=
  o.filter.map (·.column) ++ o.order.map (·.column)

/-- Refuses options that name an undeclared column or relation, the first of them. -/
def check (o : FindOptions) (e : Entity ρ) : Except StoreError Unit :=
  match o.columns.find? (!e.hasColumn ·) with
  | some column => .error (.invalidInput (.unknownColumn e.segment column))
  | none => match o.relations.find? (!e.hasRelation ·) with
    | some relation => .error (.invalidInput (.unknownRelation e.segment relation))
    | none => .ok ()

end FindOptions

end ReadThrough
