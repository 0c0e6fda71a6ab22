import ReadThrough.Key
/-!
# Plain values in a cache

A cache does not care what it holds. Here it holds numbers, texts and the knowledge that a text is
missing, and whoever reads says which type is meant; a value of another type is not seen.
-/

namespace ReadThrough

/-- A plain value. -/
inductive Scalar where
  | int (n : Int64)
  | text (s : String)
  /-- A text that is known to be missing. -/
  | missing
  deriving DecidableEq, Repr, Inhabited

/-- The types of plain values. -/
inductive ScalarType where
  | int
  | text
  | optional
  deriving DecidableEq, Repr, Inhabited

/-- The type of a value. Only a missing text is an optional one: a text that is there was stored as a
text. -/
def Scalar.type : Scalar → ScalarType
  | .int _ => .int
  | .text _ => .text
  | .missing => .optional

/-- A value, if it is of a type. -/
def Scalar.read (t : ScalarType) (v : Scalar) : Option Scalar := if v.type = t then some v else none

end ReadThrough
