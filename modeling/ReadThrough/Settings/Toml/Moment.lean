import ReadThrough.Text.Decimal
/-!
# Dates and times in TOML

A moment is a date, a time of day, or a date with a time, which may come with its distance from universal
time. It is kept as a text of one form: a capital `T` before the time, and a fraction of a second of
nine digits at most without zeros at its end.
-/

namespace ReadThrough.Setting.Toml

open Decimal (takeDigits ofDigits)

/-- As many digits as given with a number in a range, and what follows them. -/
def field? (width low high : Nat) (cs : List Char) : Option (Nat × List Char × List Char) :=
  let (ds, _) := takeDigits (cs.take width)
  let n := ofDigits 0 ds
  if ds.length = width ∧ low ≤ n ∧ n ≤ high then some (n, cs.take width, cs.drop width) else none

/-- What follows a mark. -/
def after? (mark : Char) : List Char → Option (List Char)
  | c :: cs => if c = mark then some cs else none
  | [] => none

/-- How many days a month has. -/
def daysIn (year month : Nat) : Nat :=
  if month = 2 then
    if year % 4 = 0 ∧ (year % 100 ≠ 0 ∨ year % 400 = 0) then 29 else 28
  else if month = 4 ∨ month = 6 ∨ month = 9 ∨ month = 11 then 30
  else 31

/-- A day: year, month and day with hyphens between them. -/
def date? (cs : List Char) : Option (List Char × List Char) := do
  let (year, y, cs) ← field? 4 0 9999 cs
  let (month, m, cs) ← field? 2 1 12 (← after? '-' cs)
  let (_, d, cs) ← field? 2 1 (daysIn year month) (← after? '-' cs)
  return (y ++ '-' :: m ++ '-' :: d, cs)

/-- A list without the zeros at its end; a single zero stays. -/
def dropZeros (cs : List Char) : List Char :=
  match (cs.reverse.dropWhile (· = '0')).reverse with
  | [] => ['0']
  | cs => cs

/-- A fraction of a second after its point. -/
def secondPart? (cs : List Char) : Option (List Char × List Char) :=
  let digits := cs.takeWhile Char.isDigit
  if digits.isEmpty then none else some (dropZeros (digits.take 9), cs.drop digits.length)

/-- A time of day: hour and minute, and perhaps a second, which may have a fraction. -/
def time? (cs : List Char) : Option (List Char × List Char) := do
  let (_, h, cs) ← field? 2 0 23 cs
  let (_, m, cs) ← field? 2 0 59 (← after? ':' cs)
  match cs with
  | ':' :: cs =>
    let (_, s, cs) ← field? 2 0 60 cs
    let (part, cs) ← match cs with
      | '.' :: cs => (secondPart? cs).map fun (part, cs) => ('.' :: part, cs)
      | cs => some ([], cs)
    return (h ++ ':' :: m ++ ':' :: s ++ part, cs)
  | cs => return (h ++ ':' :: m, cs)

/-- Hours and minutes after a sign; a distance of zero has a plus sign. -/
def hours? (sign : Char) (cs : List Char) : Option (List Char × List Char) := do
  let (hour, h, cs) ← field? 2 0 23 cs
  let (minute, m, cs) ← field? 2 0 59 (← after? ':' cs)
  return ((if hour = 0 ∧ minute = 0 then '+' else sign) :: h ++ ':' :: m, cs)

/-- The distance from universal time; without one there is nothing to read. -/
def offset? : List Char → Option (List Char × List Char)
  | 'Z' :: cs | 'z' :: cs => some (['Z'], cs)
  | '+' :: cs => hours? '+' cs
  | '-' :: cs => hours? '-' cs
  | cs => some ([], cs)

/-- A moment, and what follows it. Between a date and a time stands a `T` or a blank. -/
def moment? (cs : List Char) : Option (String × List Char) :=
  match date? cs with
  | none => (time? cs).map fun (t, cs) => (String.ofList t, cs)
  | some (d, cs) =>
    let timed (cs : List Char) : Option (String × List Char) := do
      let (t, cs) ← time? cs
      let (o, cs) ← offset? cs
      return (String.ofList (d ++ 'T' :: t ++ o), cs)
    match cs with
    | 'T' :: cs | 't' :: cs => timed cs
    | ' ' :: more => (timed more).or (some (String.ofList d, cs))
    | cs => some (String.ofList d, cs)

end ReadThrough.Setting.Toml
