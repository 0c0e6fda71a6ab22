import ReadThrough.Settings.Toml.Moment
import ReadThrough.Settings.Toml.Number
import ReadThrough.Settings.Toml.Table
import ReadThrough.Settings.Toml.Text
import ReadThrough.Text.Blank
/-!
# Settings in TOML

A file is a row of statements, each on lines of its own: a header opens a table, or one more table of
several, and an assignment sets a name of the table that is open. A value is a text, a number, a truth
value, a moment, a list or a table between braces. Blank lines and comments may stand between statements,
and within lists and tables between any two of their parts. Nothing is nested, and no name has parts,
beyond a limit.
-/

namespace ReadThrough.Setting.Toml

open Access (isGap isNameChar)

/-- How many parts a name may have, and how many lists and tables may be open within each other. -/
def limit : Nat := 80

/-! ## Lines -/

/-- What follows blanks, line ends and comments. -/
def skipLines? : (inComment : Bool) → List Char → Option (List Char)
  | _, [] => some []
  | _, '\r' :: '\n' :: cs | _, '\n' :: cs => skipLines? false cs
  | true, c :: cs => if isPlain c then skipLines? true cs else none
  | false, '#' :: cs => skipLines? true cs
  | false, c :: cs => if isGap c then skipLines? false cs else some (c :: cs)

/-- What follows a line that has nothing left but blanks and perhaps a comment. -/
def endLine? : (inComment : Bool) → List Char → Option (List Char)
  | _, [] => some []
  | _, '\r' :: '\n' :: cs | _, '\n' :: cs => some cs
  | true, c :: cs => if isPlain c then endLine? true cs else none
  | false, '#' :: cs => endLine? true cs
  | false, c :: cs => if isGap c then endLine? false cs else none

/-! ## Names -/

/-- A bare or quoted name. -/
def name? (cs : List Char) : Option (String × List Char) :=
  match cs.takeWhile isNameChar with
  | [] => shortText? cs
  | name => some (String.ofList name, cs.dropWhile isNameChar)

/-- A name of so many parts at most, with points between them, and what follows it and the blanks after
it. -/
def names? : (parts : Nat) → List Char → Option (DottedName × List Char)
  | 0, _ => none
  | parts + 1, cs => do
    let (name, rest) ← name? (skipGap cs)
    match skipGap rest with
    | '.' :: rest =>
      let (n, rest) ← names? parts rest
      return ({ n with tables := name :: n.tables }, rest)
    | rest => return ({ tables := [], last := name }, rest)

/-- A name with points in it, and what follows it and the blanks after it. -/
def dottedName? (cs : List Char) : Option (DottedName × List Char) := names? limit cs

/-! ## Values -/

/-- A truth value or a number in one word. -/
def word? (cs : List Char) : Option Setting :=
  match String.ofList cs with
  | "true" => some (.bool true)
  | "false" => some (.bool false)
  | _ => number? cs

/-- A value that has no values in it, and what follows it. -/
def plain? (cs : List Char) : Option (Setting × List Char) :=
  let inWord (c : Char) : Bool := isNameChar c || c = '+' || c = '.' || c = ':'
  match text? cs with
  | some (s, rest) => some (.text s, rest)
  | none => match word? (cs.takeWhile inWord) with
    | some v => some (v, cs.dropWhile inWord)
    | none => (moment? cs).map fun (s, rest) => (.text s, rest)

mutual

/-- A value with so many levels of lists and tables at most, and what follows it. -/
def valueFor? : (fuel levels : Nat) → List Char → Option (Setting × List Char)
  | 0, _, _ => none
  | fuel + 1, levels + 1, '[' :: cs =>
    (items? fuel levels [] cs).map fun (l, rest) => (.list l, rest)
  | fuel + 1, levels + 1, '\x7b' :: cs =>
    (members? fuel levels [] cs).map fun (t, rest) => (.table (settings t), rest)
  | _ + 1, _, cs => plain? cs

/-- The items of a list up to its closing bracket, after those that have been read; a comma may stand
after the last. -/
def items? : (fuel levels : Nat) → List Setting → List Char → Option (List Setting × List Char)
  | 0, _, _, _ => none
  | fuel + 1, levels, l, cs => do
    match ← skipLines? false cs with
    | ']' :: rest => return (l, rest)
    | cs =>
      let (v, cs) ← valueFor? fuel levels cs
      match ← skipLines? false cs with
      | ',' :: cs => items? fuel levels (l ++ [v]) cs
      | ']' :: rest => return (l ++ [v], rest)
      | _ => none

/-- The members of a table up to its closing brace, after those that have been read; a comma may stand
after the last. -/
def members? : (fuel levels : Nat) → Items → List Char → Option (Items × List Char)
  | 0, _, _, _ => none
  | fuel + 1, levels, t, cs => do
    match ← skipLines? false cs with
    | '\x7d' :: rest => return (t, rest)
    | cs =>
      let (n, cs) ← dottedName? cs
      let cs ← after? '=' (← skipLines? false cs)
      let (v, cs) ← valueFor? fuel levels (← skipLines? false cs)
      let t ← set? v n.last n.tables t
      match ← skipLines? false cs with
      | ',' :: cs => members? fuel levels t cs
      | '\x7d' :: rest => return (t, rest)
      | _ => none

end

/-- A value, and what follows it. Between two levels lies a character at least. -/
def value? (cs : List Char) : Option (Setting × List Char) :=
  valueFor? (2 * cs.length + 2) limit cs

/-! ## Statements -/

/-- What is read so far, and the path of the table that is open. -/
structure File where
  root : Items := []
  here : List String := []

/-- Reads a statement, and what follows it. -/
def statement? (f : File) : List Char → Option (File × List Char)
  | '[' :: '[' :: cs => do
    let (n, rest) ← dottedName? cs
    let rest ← after? ']' (← after? ']' rest)
    return ({ root := ← openNext? n f.root, here := n.path }, rest)
  | '[' :: cs => do
    let (n, rest) ← dottedName? cs
    let rest ← after? ']' rest
    return ({ root := ← openTable? n f.root, here := n.path }, rest)
  | cs => do
    let (n, rest) ← dottedName? cs
    let (v, rest) ← value? (skipGap (← after? '=' rest))
    return ({ f with root := ← within? (set? v n.last n.tables) f.here f.root }, rest)

/-- Reads statements to the end, as many as the fuel allows. -/
def statements? : (fuel : Nat) → File → List Char → Option File
  | 0, _, _ => none
  | fuel + 1, f, cs => do
    match ← skipLines? false cs with
    | [] => return f
    | cs =>
      let (f, rest) ← statement? f cs
      statements? fuel f (← endLine? false rest)

/-- The table of a TOML text, which may have a byte order mark in front. -/
def table? (s : String) : Option SettingTable :=
  let cs := dropMark s.toList
  (statements? (cs.length + 1) {} cs).map fun f => settings f.root

end ReadThrough.Setting.Toml
