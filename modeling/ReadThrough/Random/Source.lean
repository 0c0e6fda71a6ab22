import ReadThrough.Random.ChaCha
/-!
# Sources of randomness

A random sample is a window of the ordered rows that starts at a random place, in shuffled order. The
place and the order come from a `RandomSource`: a stream of random words, or a script that says what
to draw.
-/

namespace ReadThrough

/-- How a script orders a list. -/
inductive Arrangement where
  | identity
  | reverse
  /-- The first member goes to the end. -/
  | rotate
  deriving DecidableEq, Repr, Inhabited

/-- A list in the order of an arrangement. -/
def Arrangement.apply {α : Type} : Arrangement → List α → List α
  | .identity, l => l
  | .reverse, l => l.reverse
  | .rotate, l => l.drop 1 ++ l.take 1

/-- Where random draws come from. -/
inductive RandomSource where
  | stream (g : ChaCha)
  /-- The fractions are drawn in turn, over and over again. -/
  | script (units : List Float) (drawn : Nat) (arrangement : Arrangement)

namespace RandomSource

/-- A fraction between zero and one. -/
def unit : RandomSource → Float × RandomSource
  | .stream g =>
    let (u, g) := g.nextUnit
    (u, .stream g)
  | .script units drawn arrangement =>
    (units.getD (drawn % units.length) 0, .script units (drawn + 1) arrangement)

/-- A list in random order. -/
def shuffle {α : Type} (source : RandomSource) (l : List α) : List α × RandomSource :=
  match source with
  | .stream g =>
    let (l, g) := g.shuffle l
    (l, .stream g)
  | .script _ _ arrangement => (arrangement.apply l, source)

end RandomSource

/-- A fraction brought between zero and one. -/
def clampUnit (r : Float) : Float := if r < 0 then 0 else if r > 1 then 1 else r

/-- The start of a window of `n` rows out of `count`, at the fraction `r` of the places where it fits.
A window that covers all rows starts at the first. -/
def windowStart (count n : UInt64) (r : Float) : UInt64 :=
  if count ≤ n then 0
  else
    let span := count - n
    min (clampUnit r * span.toFloat).floor.toUInt64 span

end ReadThrough
