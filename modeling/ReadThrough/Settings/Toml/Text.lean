import ReadThrough.Settings.Path
import ReadThrough.Text.Hex
/-!
# Texts in TOML

A text stands between quotes, with escapes in it, or between apostrophes as it is written. It ends with
its line, unless it is opened by three quotes or apostrophes and closed by as many: such a long text has
its line ends in it as they are written, but the one right after the opening does not count.
-/

namespace ReadThrough.Setting.Toml

open Access (isGap)

/-- A text without the blanks in front. -/
def skipGap (cs : List Char) : List Char := cs.dropWhile isGap

/-- Whether a character may stand in a text or a comment as it is. -/
def isPlain (c : Char) : Bool := c = '\t' || (' ' ≤ c && c ≠ '\x7f')

/-- What follows a line end; it may have a carriage return in it. -/
def afterLine? : List Char → Option (List Char)
  | '\n' :: cs => some cs
  | '\r' :: '\n' :: cs => some cs
  | _ => none

/-! ## Escapes -/

/-- The character of a code point in hexadecimal digits. -/
def codePoint? (digits : List Char) : Option Char := do
  let n ← digits.foldlM (fun n c => (Hex.value? c).map fun d => n * 16 + d) 0
  if n < 0xD800 ∨ (0xDFFF < n ∧ n < 0x110000) then some (Char.ofNat n) else none

/-- The character that a letter after a backslash stands for. -/
def escaped? : Char → Option Char
  | 'b' => some '\x08'
  | 't' => some '\t'
  | 'n' => some '\n'
  | 'f' => some '\x0c'
  | 'r' => some '\r'
  | 'e' => some '\x1b'
  | '"' => some '"'
  | '\\' => some '\\'
  | _ => none

/-! ## Bodies -/

/-- A character in front of the text that has been read after it. -/
def before (c : Option Char) (r : Option (List Char × List Char)) :
    Option (List Char × List Char) := do
  let c ← c
  let (body, rest) ← r
  return (c :: body, rest)

/-- The end of a long text after three of its marks: up to two more of them belong to the text. -/
def closeLong (mark : Char) (cs : List Char) : List Char × List Char :=
  let more := (cs.take 2).takeWhile (· = mark)
  (more, cs.drop more.length)

/-- A text after its opening quotes, and what follows it. In a long text a backslash at the end of a line
takes away the line end and all blanks and line ends after it. -/
def quoted (long : Bool) : (skipping : Bool) → List Char → Option (List Char × List Char)
  | _, [] => none
  | _, '\\' :: 'x' :: a :: b :: cs => before (codePoint? [a, b]) (quoted long false cs)
  | _, '\\' :: 'u' :: a :: b :: c :: d :: cs =>
    before (codePoint? [a, b, c, d]) (quoted long false cs)
  | _, '\\' :: 'U' :: a :: b :: c :: d :: e :: f :: g :: h :: cs =>
    before (codePoint? [a, b, c, d, e, f, g, h]) (quoted long false cs)
  | _, '\\' :: c :: cs =>
    if long && (afterLine? (skipGap (c :: cs))).isSome then quoted long true (c :: cs)
    else before (escaped? c) (quoted long false cs)
  | _, '"' :: cs =>
    if long then match cs with
      | '"' :: '"' :: rest => some (closeLong '"' rest)
      | cs => before (some '"') (quoted long false cs)
    else some ([], cs)
  | skipping, '\r' :: '\n' :: cs =>
    if skipping then quoted long true cs
    else if long then before (some '\r') (before (some '\n') (quoted long false cs))
    else none
  | skipping, '\n' :: cs =>
    if skipping then quoted long true cs
    else if long then before (some '\n') (quoted long false cs)
    else none
  | skipping, c :: cs =>
    if skipping && isGap c then quoted long true cs
    else if isPlain c then before (some c) (quoted long false cs)
    else none

/-- A text after its opening apostrophes, and what follows it. -/
def literal (long : Bool) : List Char → Option (List Char × List Char)
  | [] => none
  | '\x27' :: cs =>
    if long then match cs with
      | '\x27' :: '\x27' :: rest => some (closeLong '\x27' rest)
      | cs => before (some '\x27') (literal long cs)
    else some ([], cs)
  | '\r' :: '\n' :: cs =>
    if long then before (some '\r') (before (some '\n') (literal long cs)) else none
  | '\n' :: cs => if long then before (some '\n') (literal long cs) else none
  | c :: cs => if isPlain c then before (some c) (literal long cs) else none

/-! ## Texts -/

/-- A text on one line, and what follows it. -/
def shortText? : List Char → Option (String × List Char)
  | '"' :: cs => (quoted false false cs).map fun (body, rest) => (String.ofList body, rest)
  | '\x27' :: cs => (literal false cs).map fun (body, rest) => (String.ofList body, rest)
  | _ => none

/-- A text, and what follows it. -/
def text? : List Char → Option (String × List Char)
  | '"' :: '"' :: '"' :: cs =>
    (quoted true false ((afterLine? cs).getD cs)).map fun (body, rest) => (String.ofList body, rest)
  | '\x27' :: '\x27' :: '\x27' :: cs =>
    (literal true ((afterLine? cs).getD cs)).map fun (body, rest) => (String.ofList body, rest)
  | cs => shortText? cs

end ReadThrough.Setting.Toml
