import ReadThrough.Json.Token
/-!
# Numbers as doubles

The digits of a number are read into a word of 64 bits as far as they fit, the word is rounded to a
double, and the double is multiplied by a power of ten or divided by one, and rounded again. A number
beyond the largest double has no value.
-/

namespace ReadThrough.Json

/-- The power of ten as a double. -/
def powerOfTen (n : Nat) : Float := Float.ofScientific 1 false n

/-- Reads digits into a number as long as it stays in a word, and tells how many it has read. -/
def fill (n : Nat) : List Nat → Nat × Nat
  | [] => (n, 0)
  | d :: digits =>
    if n * 10 + d < UInt64.size then
      let (n, count) := fill (n * 10 + d) digits
      (n, count + 1)
    else (n, 0)

/-- A double times a power of ten; the power may be so low that it takes several divisions. -/
def scaleByTen (x : Float) : (steps : Nat) → Int → Option Float
  | _, .ofNat p =>
    if x == 0 then some x
    else if 308 < p then none
    else
      let y := x * powerOfTen p
      if y.isInf then none else some y
  | 0, .negSucc _ => some 0
  | steps + 1, .negSucc p =>
    if p < 308 then some (x / powerOfTen (p + 1))
    else if x == 0 then some x
    else scaleByTen (x / powerOfTen 308) steps (.negSucc p + 308)

/-- The double of a number. -/
def Number.toDouble? (n : Number) : Option Float :=
  let whole := (Nat.toDigits 10 n.whole).map fun c => c.toNat - '0'.toNat
  let (value, taken) := fill 0 whole
  let (value, places) := fill value n.fraction
  let power := n.exponent.getD 0 + (whole.length - taken : Nat) - places
  (scaleByTen (.ofNat value) 4 power).map fun x => if n.negative then -x else x

end ReadThrough.Json
