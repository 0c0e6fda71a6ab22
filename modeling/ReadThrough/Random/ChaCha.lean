/-!
# Random numbers

The words of a ChaCha stream with eight rounds. The key of the stream is drawn from a seed of 64 bits
by a small congruential generator. From the words come fractions between zero and one, and orders
into which a list is shuffled.
-/

namespace ReadThrough

/-- A stream of random words, read up to a position. -/
structure ChaCha where
  key : Vector UInt32 8
  position : Nat := 0

namespace ChaCha

/-! ## The key of a seed -/

/-- Steps the congruential generator. -/
def stepSeed (s : UInt64) : UInt64 := s * 6364136223846793005 + 11634580027462260723

/-- Turns a word to the right. -/
def rotateRight (x n : UInt32) : UInt32 := (x >>> (n % 32)) ||| (x <<< ((32 - n) % 32))

/-- The word that a state of the generator gives. -/
def seedWord (s : UInt64) : UInt32 :=
  rotateRight (((s >>> 18) ^^^ s) >>> 27).toUInt32 (s >>> 59).toUInt32

/-- The next words of the generator. -/
def seedWords : (count : Nat) → UInt64 → List UInt32
  | 0, _ => []
  | count + 1, s => seedWord (stepSeed s) :: seedWords count (stepSeed s)

/-- The stream of a seed. -/
def ofSeed (seed : UInt64) : ChaCha :=
  let words := seedWords 8 seed
  { key := Vector.ofFn fun i => words.getD i 0 }

/-! ## Blocks -/

/-- Turns a word to the left. -/
def rotateLeft (x n : UInt32) : UInt32 := (x <<< n) ||| (x >>> (32 - n))

/-- Mixes four words of a block. -/
def quarter (v : Vector UInt32 16) (i j k l : Fin 16) : Vector UInt32 16 :=
  let a := v[i]; let b := v[j]; let c := v[k]; let d := v[l]
  let a := a + b; let d := rotateLeft (d ^^^ a) 16
  let c := c + d; let b := rotateLeft (b ^^^ c) 12
  let a := a + b; let d := rotateLeft (d ^^^ a) 8
  let c := c + d; let b := rotateLeft (b ^^^ c) 7
  (((v.set i a).set j b).set k c).set l d

/-- Two rounds: the columns, then the diagonals. -/
def doubleRound (v : Vector UInt32 16) : Vector UInt32 16 :=
  let v := quarter v 0 4 8 12
  let v := quarter v 1 5 9 13
  let v := quarter v 2 6 10 14
  let v := quarter v 3 7 11 15
  let v := quarter v 0 5 10 15
  let v := quarter v 1 6 11 12
  let v := quarter v 2 7 8 13
  quarter v 3 4 9 14

/-- The block before it is mixed: four constants, the key, the number of the block, and zeros. -/
def initial (key : Vector UInt32 8) (block : UInt64) : Vector UInt32 16 :=
  #v[0x61707865, 0x3320646e, 0x79622d32, 0x6b206574, key[0], key[1], key[2], key[3], key[4], key[5],
    key[6], key[7], block.toUInt32, (block >>> 32).toUInt32, 0, 0]

/-- A block of sixteen words. -/
def block (key : Vector UInt32 8) (n : UInt64) : Vector UInt32 16 :=
  let v := initial key n
  (doubleRound (doubleRound (doubleRound (doubleRound v)))).zipWith (· + ·) v

/-! ## Drawing -/

/-- The next word. -/
def next (g : ChaCha) : UInt32 × ChaCha :=
  let words := block g.key (.ofNat (g.position / 16))
  (words.get ⟨g.position % 16, Nat.mod_lt _ (by decide)⟩, { g with position := g.position + 1 })

/-- The next two words as one number, the lower half first. -/
def next64 (g : ChaCha) : UInt64 × ChaCha :=
  let (low, g) := g.next
  let (high, g) := g.next
  (high.toUInt64 <<< 32 ||| low.toUInt64, g)

/-- A number of 53 bits. -/
def next53 (g : ChaCha) : UInt64 × ChaCha :=
  let (n, g) := g.next64
  (n >>> 11, g)

/-- A fraction, zero included and one not. -/
def nextUnit (g : ChaCha) : Float × ChaCha :=
  let (n, g) := g.next53
  (n.toFloat / 9007199254740992.0, g)

/-- A number below a bound: the high part of the product of a word with the bound, corrected by a second
draw when the low part comes near its end. Words are numbers below `size`. -/
def below (size : Nat) (word : ChaCha → Nat × ChaCha) (g : ChaCha) (bound : Nat) : Nat × ChaCha :=
  let (x, g) := word g
  let high := x * bound / size
  let low := x * bound % size
  if size - bound < low then
    let (y, g) := word g
    (if size ≤ low + y * bound / size then high + 1 else high, g)
  else (high, g)

/-- A number below a bound of 32 bits. -/
def below32 (g : ChaCha) (bound : Nat) : Nat × ChaCha :=
  below UInt32.size (fun g => (g.next.1.toNat, g.next.2)) g bound

/-- A number below a bound of 64 bits. -/
def below64 (g : ChaCha) (bound : Nat) : Nat × ChaCha :=
  below UInt64.size (fun g => (g.next64.1.toNat, g.next64.2)) g bound

/-! ## Shuffling -/

/-- The product of as many successive factors as fit a word, and how many they are. One step is
taken for each factor, and there are never more than twelve. -/
def factorsFrom : (steps product current count : Nat) → Nat × Nat
  | 0, product, _, count => (product, count)
  | steps + 1, product, current, count =>
    if product * current < UInt32.size then
      factorsFrom steps (product * current) (current + 1) (count + 1)
    else (product, count)

/-- The product of the factors from `n` on that fit a word, and how many they are. -/
def factors (n : Nat) : Nat × Nat := factorsFrom 32 n (n + 1) 1

/-- A draw that serves for several places: a number below a product of successive bounds, and how
many of its factors are still to be taken out. -/
structure Chunk where
  value : Nat := 0
  left : Nat := 1
  deriving Repr

/-- A place among the first `n`. The last place that a chunk serves for is what is left of it. -/
def place (g : ChaCha) (chunk : Chunk) (n : Nat) : Nat × Chunk × ChaCha :=
  let (chunk, g) :=
    if chunk.left = 0 then
      let (product, count) := factors n
      let (value, g) := g.below32 product
      ({ value, left := count : Chunk }, g)
    else (chunk, g)
  if chunk.left = 1 then (chunk.value, { chunk with left := 0 }, g)
  else (chunk.value % n, { value := chunk.value / n, left := chunk.left - 1 }, g)

/-- The places that so many members of a list are exchanged with, from a place on, drawn in chunks. -/
def places : (count n : Nat) → ChaCha → Chunk → List Nat × ChaCha
  | 0, _, g, _ => ([], g)
  | count + 1, n, g, chunk =>
    let (i, chunk, g) := g.place chunk (n + 1)
    let (is, g) := places count (n + 1) g chunk
    (i :: is, g)

/-- The places that so many members of a list are exchanged with, from a place on, each drawn for
itself. -/
def placesApart : (count n : Nat) → ChaCha → List Nat × ChaCha
  | 0, _, g => ([], g)
  | count + 1, n, g =>
    let (i, g) := if n + 1 < UInt32.size then g.below32 (n + 1) else g.below64 (n + 1)
    let (is, g) := placesApart count (n + 1) g
    (i :: is, g)

/-- The places that the members of a list of a length are exchanged with, first to last. A chunk fits a
word, so a list that is too long for one goes without. -/
def partners (g : ChaCha) (length : Nat) : List Nat × ChaCha :=
  if length < UInt32.size - 1 then places length 0 g {} else placesApart length 0 g

/-- A list with two members exchanged; a place outside it changes nothing. -/
def exchange {α : Type} (l : List α) (i j : Nat) : List α :=
  match l[i]?, l[j]? with
  | some a, some b => (l.set i b).set j a
  | _, _ => l

/-- A list in random order: each member is exchanged with one at its place or before. -/
def shuffle {α : Type} (g : ChaCha) (l : List α) : List α × ChaCha :=
  if l.length < 2 then (l, g)
  else
    let (is, g) := g.partners l.length
    (is.zipIdx.foldl (fun l p => exchange l p.2 p.1) l, g)

end ChaCha

end ReadThrough
