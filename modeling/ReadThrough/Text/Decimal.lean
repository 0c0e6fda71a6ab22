/-!
# Decimal texts

A finite double is a number `m * 2 ^ q`, and every real number that is nearer to it than to its
neighbours reads as that double. Its decimal text is the one with the fewest digits among those that
read back, and the nearest of them where there are two; of two that are equally near it is the greater.
It is written without a power of ten.
-/

namespace ReadThrough.Decimal

/-- A whole number with an exponent to a base that is known from the context. -/
structure Scaled where
  digits : Nat
  exponent : Int
  deriving DecidableEq, Repr, Inhabited

/-- The bit in front of the binary point of a double, which is not stored. -/
def hiddenBit : Nat := 1 <<< 52

/-- The binary form of a finite double without its sign. -/
def binary (bits : UInt64) : Scaled :=
  let fraction := (bits &&& 0xFFFFFFFFFFFFF).toNat
  match ((bits >>> 52) &&& 0x7FF).toNat with
  | 0 => { digits := fraction, exponent := -1074 }
  | e => { digits := fraction + hiddenBit, exponent := (e : Int) - 1075 }

/-- A range of real numbers as three whole numbers over one unit: its ends and a point within. -/
structure Range where
  low : Nat
  point : Nat
  high : Nat
  /-- Whether the ends belong to the range. -/
  closed : Bool
  deriving Repr

/-- The numbers that read as a double, in quarters of its last place. Below a power of two the
neighbour is only half as far away. -/
def range (b : Scaled) : Range where
  low := 4 * b.digits - if b.digits = hiddenBit ∧ -1074 < b.exponent then 1 else 2
  point := 4 * b.digits
  high := 4 * b.digits + 2
  closed := b.digits % 2 = 0

/-- Whether a number is in the range. -/
def Range.holds (r : Range) (n : Nat) : Bool :=
  if r.closed then r.low ≤ n && n ≤ r.high else r.low < n && n < r.high

/-- The range over a finer unit. -/
def Range.scale (r : Range) (s : Nat) : Range :=
  { r with low := r.low * s, point := r.point * s, high := r.high * s }

/-- The multiple of `g` in a range that is nearest to its point, counted in `g`s; a tie goes up. -/
def Range.nearest? (r : Range) (g : Nat) : Option Nat :=
  let below := r.point / g
  let above := below + 1
  match r.holds (below * g), r.holds (above * g) with
  | true, true => if r.point - below * g < above * g - r.point then some below else some above
  | true, false => some below
  | false, true => some above
  | false, false => none

/-- The first power of ten, going down, that has a multiple in a range over the unit `up / down`. -/
def search (r : Range) (up down : Nat) : (steps : Nat) → (power : Int) → Scaled
  | 0, _ => { digits := 0, exponent := 0 }
  | steps + 1, power =>
    let hit := match power with
      | .ofNat p => (r.scale up).nearest? (Nat.pow 10 p * down)
      | .negSucc p => (r.scale (up * Nat.pow 10 (p + 1))).nearest? down
    match hit with
    | some digits => { digits, exponent := power }
    | none => search r up down steps (power - 1)

/-- The decimal form with the fewest digits that reads back as a binary one. -/
def shortest (b : Scaled) : Scaled :=
  let unit := b.exponent - 2
  let up := 1 <<< unit.toNat
  let down := 1 <<< (-unit).toNat
  let size := (Nat.toDigits 10 (4 * b.digits * up / down)).length
  search (range b) up down (size + 360) size

/-- A decimal form without a power of ten. -/
def positional (d : Scaled) : List Char :=
  let digits := Nat.toDigits 10 d.digits
  match d.exponent with
  | .ofNat p => digits ++ List.replicate p '0'
  | .negSucc p =>
    let places := p + 1
    let padded := List.replicate (places + 1 - digits.length) '0' ++ digits
    padded.take (padded.length - places) ++ '.' :: padded.drop (padded.length - places)

/-- The decimal text of a double. -/
def text (x : Float) : String :=
  let bits := x.toBits
  let b := binary bits
  let sign := if bits >>> 63 = 1 then "-" else ""
  if (bits >>> 52) &&& 0x7FF = 0x7FF then
    if bits &&& 0xFFFFFFFFFFFFF = 0 then sign ++ "inf" else "NaN"
  else if b.digits = 0 then sign ++ "0"
  else sign ++ String.ofList (positional (shortest b))

/-! ## Reading -/

/-- The number that digits denote, after the digits of a number before them. -/
def ofDigits (n : Nat) (ds : List Nat) : Nat := ds.foldl (fun n d => n * 10 + d) n

/-- The digits at the front of a text, and what follows them. -/
def takeDigits (cs : List Char) : List Nat × List Char :=
  ((cs.takeWhile Char.isDigit).map fun c => c.toNat - '0'.toNat, cs.dropWhile Char.isDigit)

/-- The double nearest to a decimal number: beyond the largest it is infinite. -/
def nearest (d : Scaled) : Float :=
  let size := (Nat.toDigits 10 d.digits).length + d.exponent
  if d.digits = 0 ∨ size < -400 then 0
  else if 400 < size then 1 / 0
  else match d.exponent with
    | .ofNat p => Float.ofScientific d.digits false p
    | .negSucc p => Float.ofScientific d.digits true (p + 1)

/-- Takes a sign off; the answer says whether it was a minus. -/
def sign : List Char → Bool × List Char
  | '-' :: cs => (true, cs)
  | '+' :: cs => (false, cs)
  | cs => (false, cs)

/-- The power of ten at the end of a number; without one it is zero. -/
def power? : List Char → Option Int
  | [] => some 0
  | c :: cs =>
    let (negative, cs) := sign cs
    let (ds, rest) := takeDigits cs
    if (c = 'e' ∨ c = 'E') ∧ ds ≠ [] ∧ rest = [] then
      let n : Int := ofDigits 0 ds
      some (if negative then -n else n)
    else none

/-- The double that a text denotes: a decimal number, or a word for infinity or for no number. -/
def ofText? (s : String) : Option Float := do
  let (negative, cs) := sign s.toLower.toList
  let x : Float ← match String.ofList cs with
    | "inf" | "infinity" => pure (1 / 0)
    | "nan" => pure (0 / 0)
    | _ =>
      let (whole, rest) := takeDigits cs
      let (places, rest) := match rest with
        | '.' :: cs => takeDigits cs
        | cs => ([], cs)
      let power ← power? rest
      if whole = [] ∧ places = [] then none
      else pure (nearest
        { digits := ofDigits (ofDigits 0 whole) places, exponent := power - places.length })
  return if negative then -x else x

end ReadThrough.Decimal
