import ReadThrough.Json.Token
import ReadThrough.Text.Hex
/-!
# From tokens to text

Texts are written compactly. Inside a quoted text only the quote, the backslash and the characters
below the blank are escaped.
-/

namespace ReadThrough.Json

/-- A character inside a quoted text. -/
def escape (c : Char) : List Char :=
  match c with
  | '"' => ['\\', '"']
  | '\\' => ['\\', '\\']
  | '\x08' => ['\\', 'b']
  | '\t' => ['\\', 't']
  | '\n' => ['\\', 'n']
  | '\x0c' => ['\\', 'f']
  | '\r' => ['\\', 'r']
  | c =>
    if c < ' ' then ['\\', 'u', '0', '0', Hex.digit (c.toNat / 16), Hex.digit (c.toNat % 16)]
    else [c]

/-- A quoted text. -/
def quote (s : String) : List Char := '"' :: s.toList.flatMap escape ++ ['"']

/-- The decimal digits of a number. -/
def Number.write (n : Number) : List Char :=
  (if n.negative then ['-'] else []) ++ Nat.toDigits 10 n.whole ++
  (if n.fraction = [] then [] else '.' :: n.fraction.flatMap (Nat.toDigits 10)) ++
  match n.exponent with
  | none => []
  | some (.ofNat p) => 'e' :: Nat.toDigits 10 p
  | some (.negSucc p) => 'e' :: '-' :: Nat.toDigits 10 (p + 1)

/-- How a token is written. -/
def Token.write : Token → List Char
  | .openObject => ['{']
  | .closeObject => ['}']
  | .openArray => ['[']
  | .closeArray => [']']
  | .colon => [':']
  | .comma => [',']
  | .null => ['n', 'u', 'l', 'l']
  | .bool true => ['t', 'r', 'u', 'e']
  | .bool false => ['f', 'a', 'l', 's', 'e']
  | .number n => n.write
  | .text s => quote s
  | .unpaired => ['"', '\\', 'u', 'd', '8', '0', '0', '"']
  | .invalid => ['?']

/-- A token list as text. -/
def write (ts : List Token) : String := String.ofList (ts.flatMap Token.write)

/-- An integer. -/
def ofInt (i : Int) : List Token := [.number (.ofInt i)]

/-- A text. -/
def ofText (s : String) : List Token := [.text s]

/-- Values between brackets. -/
def array (values : List (List Token)) : List Token :=
  .openArray :: (values.intersperse [.comma]).flatten ++ [.closeArray]

/-- Named values between braces. -/
def object (members : List (String × List Token)) : List Token :=
  .openObject ::
    ((members.map fun m => .text m.1 :: .colon :: m.2).intersperse [.comma]).flatten ++
    [.closeObject]

/-- A member that is left out when there is no value. -/
def optional (name : String) (value : Option (List Token)) : List (String × List Token) :=
  match value with
  | some v => [(name, v)]
  | none => []

end ReadThrough.Json
