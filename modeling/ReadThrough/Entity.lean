import ReadThrough.Key
/-!
# Entities

An `Entity` describes the rows of one type: the segment of the cache that holds them, the names that
stores and requests may use, and how to look at a row. The rows themselves are of any type `ρ`.
-/

namespace ReadThrough

/-- What is known of a type of rows. -/
structure Entity (ρ : Type) where
  /-- The type of the rows. Entities of different types may share a segment. -/
  kind : String
  segment : String
  keyColumn : String := "id"
  columns : List String := []
  relations : List String := []
  /-- The column that holds the key of a row's category. -/
  categoryColumn : Option String := none
  key : ρ → Key
  /-- What a row holds in a column; nothing when the column is empty or unknown. -/
  value : ρ → String → Option Value

namespace Entity

variable {ρ : Type}

/-- Whether a name is that of the key column or of a declared column. -/
def hasColumn (e : Entity ρ) (name : String) : Bool := name = e.keyColumn || e.columns.contains name

/-- Whether a name is that of a declared relation. -/
def hasRelation (e : Entity ρ) (name : String) : Bool := e.relations.contains name

end Entity

end ReadThrough
