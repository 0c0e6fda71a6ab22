import ReadThrough.Entity
/-!
# Entities in a database

A `Mapping` says in which table the rows of an entity are, which kind of key they have, and how a
relation is followed.
-/

namespace ReadThrough.Sql

/-- The kind of the keys of a table. -/
inductive KeyKind where
  | int
  | text
  deriving DecidableEq, Repr, Inhabited

/-- Whether a key is of a kind. -/
def KeyKind.admits : KeyKind → Key → Bool
  | .int, .int _ => true
  | .text, .text _ => true
  | _, _ => false

/-- The key that a value of a column holds, if it is of the kind. -/
def KeyKind.key? : KeyKind → Value → Option Key
  | .int, .int n => some (.int n)
  | .text, .text s => some (.text s)
  | _, _ => none

/-- Where an entity is in a database. -/
structure Mapping (ρ : Type) where
  entity : Entity ρ
  table : String
  keyKind : KeyKind := .int
  /-- The expression that follows a relation. It may refer to the row at hand as `t`. -/
  relation : String → Option String := fun _ => none

end ReadThrough.Sql
