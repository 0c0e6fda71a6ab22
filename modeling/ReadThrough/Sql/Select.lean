import ReadThrough.Sql.Mapping
import ReadThrough.Sql.Statement
import ReadThrough.Store.Filter
/-!
# Queries

A `Select` is what a store asks of a database: what to deliver of which rows, in which order, from a
place on and so many of them. The rows are always ordered by key at last. Options become a `Select` only
if every name in them is declared, so the text of the query is made of declared names alone.
-/

namespace ReadThrough.Sql

/-- What is delivered of a row. -/
inductive Projection where
  /-- The row, and what its relations lead to. -/
  | rows (relations : List (String × String))
  | keys
  deriving DecidableEq, Repr

/-- A query for rows or keys. -/
structure Select where
  projection : Projection
  conditions : Filter
  /-- Columns in order of weight; the key column is among them. -/
  order : List Order
  limit : Option Int64 := none
  offset : Option Int64 := none
  deriving DecidableEq, Repr

variable {ρ : Type}

/-- A number of rows, as far as the database can count. -/
def clampCount (n : UInt64) : Int64 :=
  if n ≤ Int64.maxValue.toUInt64 then n.toInt64 else Int64.maxValue

/-- An order that ends with the key column, unless the key column is in it. -/
def withTiebreak (e : Entity ρ) (order : List Order) : List Order :=
  if order.all (·.column ≠ e.keyColumn) then order ++ [e.natural] else order

namespace Select

/-- The query for what the options ask for. -/
def ofOptions (m : Mapping ρ) (projection : Projection) (o : FindOptions) : Select where
  projection := projection
  conditions := o.filter
  order := withTiebreak m.entity o.order
  limit := o.take.map clampCount
  offset := if 0 < o.skip then some (clampCount o.skip) else none

/-- The query for keys. -/
def keys (m : Mapping ρ) (o : FindOptions) : Except StoreError Select := do
  o.check m.entity
  return ofOptions m .keys o

/-- The query for rows. Every relation must have an expression that follows it. -/
def rows (m : Mapping ρ) (o : FindOptions) : Except StoreError Select := do
  o.check m.entity
  let relations ← o.relations.mapM fun name => match m.relation name with
    | some expression => .ok (name, expression)
    | none => .error (.invalidInput (.unmappedRelation m.entity.segment name))
  return ofOptions m (.rows relations) o

end Select

/-! ## Queries as statements -/

/-- The pieces of a filter. -/
def conditionPieces (f : Filter) : Statement :=
  f.flatMap fun c => [.text s!" AND t.{c.column} {c.comparison.sql} ", .bind (.value c.value)]

/-- What stands between the head of a query and its conditions. -/
def fromTable (m : Mapping ρ) : Piece := .text s!" FROM {m.table} t WHERE 1 = 1"

/-- The pieces of a bound on the number of rows. -/
def countPieces (word : String) (n : Option Int64) : Statement :=
  match n with
  | some n => [.text s!" {word} ", .bind (.value (.int n))]
  | none => []

/-- What a query delivers. -/
def Projection.text (m : Mapping ρ) : Projection → String
  | .keys => s!"t.{m.entity.keyColumn} AS key"
  | .rows relations =>
    relations.foldl (fun s (r : String × String) => s ++ s!", ({r.2}) AS {r.1}") "t.*"

/-- The columns that a query orders by. -/
def orderText (order : List Order) : String :=
  ", ".intercalate (order.map fun o => s!"t.{o.column} {o.direction.sql}")

/-- The statement of a query. -/
def Select.statement (m : Mapping ρ) (q : Select) : Statement :=
  [.text ("SELECT " ++ q.projection.text m), fromTable m] ++ conditionPieces q.conditions ++
  [.text (" ORDER BY " ++ orderText q.order)] ++ countPieces "LIMIT" q.limit ++
  countPieces "OFFSET" q.offset

/-- The statement that counts rows. -/
def countStatement (m : Mapping ρ) (f : Filter) : Except StoreError Statement := do
  FindOptions.check { filter := f } m.entity
  return [.text "SELECT COUNT(*)", fromTable m] ++ conditionPieces f

/-- The statement that fetches rows by key. A key of the wrong kind cannot be that of any row and is
left out. -/
def byKeysStatement (m : Mapping ρ) (keys : List Key) : Statement :=
  [.text s!"SELECT t.* FROM {m.table} t WHERE t.{m.entity.keyColumn} = ANY(",
   .bind (.keys (keys.filter m.keyKind.admits)), .text ")"]

end ReadThrough.Sql
