import ReadThrough.Key
/-!
# SQL statements

A statement is a list of pieces: text that is sent as it is, and values that are sent apart from the
text. In the text a value is a numbered placeholder, so that no value ever becomes part of it.
-/

namespace ReadThrough.Sql

/-- A value that is sent apart from the text. -/
inductive Bind where
  | value (v : Value)
  | keys (l : List Key)
  deriving DecidableEq, Repr

/-- A piece of a statement. -/
inductive Piece where
  | text (s : String)
  | bind (b : Bind)
  deriving DecidableEq, Repr

/-- A statement in pieces. -/
abbrev Statement := List Piece

namespace Statement

/-- The values of a statement in the order of their placeholders. -/
def binds : Statement → List Bind
  | [] => []
  | .text _ :: s => binds s
  | .bind b :: s => b :: binds s

/-- The text of a statement whose first placeholder has the number `n`. -/
def textFrom (n : Nat) : Statement → String
  | [] => ""
  | .text t :: s => t ++ textFrom n s
  | .bind _ :: s => "$" ++ toString n ++ textFrom (n + 1) s

/-- The text of a statement. Placeholders are numbered from one on. -/
def text (s : Statement) : String := textFrom 1 s

@[simp] theorem binds_append (s t : Statement) : binds (s ++ t) = binds s ++ binds t := by
  induction s with
  | nil => rfl
  | cons p s ih => cases p <;> simp [binds, ih]

end Statement

end ReadThrough.Sql
