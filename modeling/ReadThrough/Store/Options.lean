import ReadThrough.Key
import ReadThrough.Json.Reader
import ReadThrough.Json.Writer
/-!
# Filters, orders and windows

What a store is asked for: the rows that meet every condition, in a given order, from a place on and
so many of them, with hints about the relations and columns that the caller will look at.
-/

namespace ReadThrough

/-- Which way rows are ordered. -/
inductive Direction where
  | asc
  | desc
  deriving DecidableEq, Repr, Inhabited

namespace Direction

/-- The direction as SQL writes it. -/
def sql : Direction → String
  | .asc => "ASC"
  | .desc => "DESC"

/-- The direction as JSON writes it. -/
def name : Direction → String
  | .asc => "asc"
  | .desc => "desc"

/-- An ordering seen in a direction. -/
def apply : Direction → Ordering → Ordering
  | .asc, o => o
  | .desc, o => o.swap

/-- Reads a direction, in lower or in upper case. -/
def read {ε : Type} : Json.Reader ε Direction :=
  Json.choice [("asc", .asc), ("ASC", .asc), ("desc", .desc), ("DESC", .desc)]

/-- The direction of a JSON text. -/
def ofJson? (s : String) : Option Direction :=
  (Json.decode read s : Except (Json.Fault Empty) Direction).toOption

end Direction

/-- Rows in the order of one column. -/
structure Order where
  column : String
  direction : Direction := .asc
  deriving DecidableEq, Repr, Inhabited

/-- How a column is compared with a value. -/
inductive Comparison where
  | eq
  | gt
  deriving DecidableEq, Repr, Inhabited

/-- The comparison as SQL writes it. -/
def Comparison.sql : Comparison → String
  | .eq => "="
  | .gt => ">"

/-- Whether a value stands in a relation to another. -/
def Comparison.holds : Comparison → Value → Value → Bool
  | .eq, a, b => a = b
  | .gt, a, b => compare a b = .gt

/-- A demand on one column. -/
structure Condition where
  column : String
  comparison : Comparison
  value : Value
  deriving DecidableEq, Repr, Inhabited

/-- Conditions that must all hold. -/
abbrev Filter := List Condition

/-- What a store is asked for. -/
structure FindOptions where
  filter : Filter := []
  order : List Order := []
  skip : UInt64 := 0
  take : Option UInt64 := none
  relations : List String := []
  select : Option (List String) := none
  deriving DecidableEq, Repr, Inhabited

end ReadThrough
