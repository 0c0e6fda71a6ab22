/-!
# Keys and values

A row is found under its `Key`, which is an integer or a text, and its columns hold `Value`s. Both
carry one total order: integers come before texts, texts before truth values, and within a kind the
order is the natural one. A key read as a value keeps its place, so that a filter which compares the
key column agrees with the order in which keys are listed.
-/

namespace ReadThrough

/-- The primary key of a row. The integer `1` and the text `1` are different keys. -/
inductive Key where
  | int (n : Int64)
  | text (s : String)
  deriving DecidableEq, Repr, Inhabited

/-- What a column of a row may hold. -/
inductive Value where
  | int (n : Int64)
  | text (s : String)
  | bool (b : Bool)
  deriving DecidableEq, Repr, Inhabited

namespace Key

/-- The integer of an integer key. -/
def int? : Key → Option Int64
  | .int n => some n
  | .text _ => none

/-- The text of a text key. -/
def text? : Key → Option String
  | .int _ => none
  | .text s => some s

/-- A key as it is named in messages: without quotes. -/
def display : Key → String
  | .int n => toString n.toInt
  | .text s => s

/-- Integers first, in numerical order; then texts, by code point. -/
protected def compare : Key → Key → Ordering
  | .int a, .int b => Ord.compare a b
  | .int _, .text _ => .lt
  | .text _, .int _ => .gt
  | .text a, .text b => Ord.compare a b

instance : Ord Key := ⟨Key.compare⟩

/-- The key as a column holds it. -/
def toValue : Key → Value
  | .int n => .int n
  | .text s => .text s

end Key

namespace Value

/-- Integers, then texts, then truth values; `false` before `true`. -/
protected def compare : Value → Value → Ordering
  | .int a, .int b => Ord.compare a b
  | .int _, _ => .lt
  | .text _, .int _ => .gt
  | .text a, .text b => Ord.compare a b
  | .text _, .bool _ => .lt
  | .bool a, .bool b => Ord.compare a b
  | .bool _, _ => .gt

instance : Ord Value := ⟨Value.compare⟩

end Value

/-- Keys are ordered as the values that hold them. -/
theorem Key.compare_toValue (a b : Key) : compare a.toValue b.toValue = compare a b := by
  cases a <;> cases b <;> rfl

end ReadThrough
