/-!
# JSON tokens

A JSON text is read as a list of tokens, and a token list is written without blanks. Two tokens have
no counterpart among JSON values: `unpaired`, a quoted text in which an escaped surrogate has no
partner, which may be skipped but has no value; and `invalid`, the place where the text stops being
JSON, after which nothing is read.
-/

namespace ReadThrough.Json

/-- A number as it is written: sign, digits before the point, digits after it, power of ten. -/
structure Number where
  negative : Bool := false
  whole : Nat
  fraction : List Nat := []
  exponent : Option Int := none
  deriving DecidableEq, Repr, Inhabited

/-- The integer that a number without point and power denotes. Minus zero is not an integer. -/
def Number.int? (n : Number) : Option Int :=
  if n.fraction = [] ∧ n.exponent = none then
    if n.negative then if n.whole = 0 then none else some (-n.whole) else some n.whole
  else none

/-- The number that denotes an integer. -/
def Number.ofInt (i : Int) : Number := { negative := decide (i < 0), whole := i.natAbs }

/-- Writing an integer and reading it back gives the integer. -/
@[simp] theorem Number.int?_ofInt (i : Int) : (Number.ofInt i).int? = some i := by
  rcases Int.lt_or_le i 0 with h | h
  · have : i.natAbs ≠ 0 := by omega
    simp only [Number.ofInt, Number.int?, decide_true, h, if_true, and_self, this, if_false]
    congr 1; omega
  · have : ¬ i < 0 := by omega
    simp only [Number.ofInt, Number.int?, this, decide_false, Bool.false_eq_true, if_false,
      and_self, if_true]
    congr 1; omega

/-- The pieces of a JSON text. -/
inductive Token where
  | openObject
  | closeObject
  | openArray
  | closeArray
  | colon
  | comma
  | null
  | bool (b : Bool)
  | number (n : Number)
  | text (s : String)
  | unpaired
  | invalid
  deriving DecidableEq, Repr, Inhabited

end ReadThrough.Json
