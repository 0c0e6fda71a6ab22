import ReadThrough.Entity
import ReadThrough.Mention
import ReadThrough.Text.Blank
/-!
# Selections

The fields that a request names are either columns of the entity or relations of it, or paths into a
relation. A selection keeps the declared names among them, each once, in order of first mention.
-/

namespace ReadThrough

/-- The relations and the columns that are asked for. -/
structure Selection where
  relations : List String := []
  columns : List String := []
  deriving DecidableEq, Repr, Inhabited

namespace Selection

variable {ρ : Type}

/-- The first name of a dotted path, without blanks around it. -/
def head (field : String) : String :=
  String.ofList (trimBlanks (field.toList.takeWhile (· ≠ '.')))

/-- Adds the name at the head of a path. A relation goes before a column of the same name, and an
undeclared name is passed over. -/
def add (e : Entity ρ) (s : Selection) (field : String) : Selection :=
  let name := head field
  if e.hasRelation name then { s with relations := addOnce s.relations name }
  else if e.hasColumn name then { s with columns := addOnce s.columns name }
  else s

/-- The selection that a list of fields makes. -/
def ofFields (e : Entity ρ) (fields : List String) : Selection := fields.foldl (add e) {}

/-- Whether a relation is asked for. -/
def hasRelations (s : Selection) : Bool := !s.relations.isEmpty

/-- The columns that a store should deliver: the key column first, then those asked for. Without a
column asked for there is no restriction. -/
def select (e : Entity ρ) (s : Selection) : Option (List String) :=
  if s.columns.isEmpty then none else some (s.columns.foldl addOnce [e.keyColumn])

end Selection

end ReadThrough
