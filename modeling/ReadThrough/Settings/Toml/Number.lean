import ReadThrough.Settings.Value
import ReadThrough.Text.Hex
/-!
# Numbers in TOML

An integer is written to base ten with an optional sign, or to base sixteen, eight or two after the name
of the base. A fraction has a point, a power of ten, or both. Single low lines may stand between digits.
-/

namespace ReadThrough.Setting.Toml

/-- The digits of a row; single low lines may stand between them. -/
def digitRow? : (afterDigit : Bool) → List Char → Option (List Nat)
  | afterDigit, [] => if afterDigit then some [] else none
  | afterDigit, c :: cs =>
    if c.isDigit then (digitRow? true cs).map ((c.toNat - '0'.toNat) :: ·)
    else if afterDigit ∧ c = '_' then digitRow? false cs
    else none

/-- The digits before the point; a row of several does not begin with zero. -/
def wholePart? (cs : List Char) : Option (List Nat) := do
  let ds ← digitRow? false cs
  if ds.length > 1 ∧ ds.head? = some 0 then none else some ds

/-- The double nearest to a decimal number; there is none beyond the largest. -/
def double? (digits : Nat) (power : Int) : Option Float :=
  let x := Decimal.nearest { digits, exponent := power }
  if x.isInf then none else some x

/-- The power of ten after its mark, with its sign. -/
def power? (cs : List Char) : Option Int := do
  let (negative, cs) := Decimal.sign cs
  let n := Decimal.ofDigits 0 (← digitRow? false cs)
  return if negative then -n else n

/-- A fraction after the digits before its point. -/
def fraction? (negative : Bool) (whole : List Nat) (cs : List Char) : Option Setting := do
  let isMark (c : Char) : Bool := c = 'e' || c = 'E'
  let (places, cs) ← match cs with
    | '.' :: cs => do
      let places ← digitRow? false (cs.takeWhile (!isMark ·))
      pure (places, cs.dropWhile (!isMark ·))
    | cs => pure ([], cs)
  let power ← match cs with
    | [] => pure 0
    | _ :: cs => power? cs
  let x ← double? (Decimal.ofDigits 0 (whole ++ places)) (power - places.length)
  return .real (if negative then -x else x)

/-- The number of a row of digits to a base; single low lines may stand between them. -/
def ofBase? (base : Nat) : (afterDigit : Bool) → (n : Nat) → List Char → Option Nat
  | afterDigit, n, [] => if afterDigit then some n else none
  | afterDigit, n, c :: cs => match Hex.value? c with
    | some d => if d < base then ofBase? base true (n * base + d) cs else none
    | none => if afterDigit ∧ c = '_' then ofBase? base false n cs else none

/-- An integer, as far as 64 bits hold it. -/
def integer? (n : Int) : Option Setting :=
  if Int64.minValue.toInt ≤ n ∧ n ≤ Int64.maxValue.toInt then some (.int n) else none

/-- An integer of 64 bits, to the base that it names or to base ten, or a fraction. -/
def number? : List Char → Option Setting
  | '0' :: 'x' :: cs => (ofBase? 16 false 0 cs).bind fun n => integer? n
  | '0' :: 'o' :: cs => (ofBase? 8 false 0 cs).bind fun n => integer? n
  | '0' :: 'b' :: cs => (ofBase? 2 false 0 cs).bind fun n => integer? n
  | cs => do
    let (negative, cs) := Decimal.sign cs
    if cs = ['i', 'n', 'f'] then return .real (if negative then -(1 / 0) else 1 / 0)
    if cs = ['n', 'a', 'n'] then return .real (0 / 0)
    let inWhole (c : Char) : Bool := c.isDigit || c = '_'
    let whole ← wholePart? (cs.takeWhile inWhole)
    match cs.dropWhile inWhole with
    | [] =>
      let n : Int := Decimal.ofDigits 0 whole
      integer? (if negative then -n else n)
    | rest@(c :: _) => if c = '.' ∨ c = 'e' ∨ c = 'E' then fraction? negative whole rest else none

end ReadThrough.Setting.Toml
