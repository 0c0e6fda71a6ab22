import ReadThrough.Json.Token
import ReadThrough.Text.Hex
/-!
# From text to tokens

The lexer reads one character at a time: `feed` gives the tokens that a character completes and the
state after it, and `lex` follows a text to its end. So what has been read is decided by the
characters read so far: `lex_append` splits the reading of a text at any place.
-/

namespace ReadThrough.Json

/-- Characters that may stand between tokens. -/
def isGap (c : Char) : Bool := c = ' ' ∨ c = '\t' ∨ c = '\n' ∨ c = '\r'

/-- The value of a decimal digit. -/
def digit? (c : Char) : Option Nat :=
  if '0' ≤ c ∧ c ≤ '9' then some (c.toNat - '0'.toNat) else none

/-! ## The inside of a quoted text -/

/-- What has been read of a quoted text: its characters, last first; an escaped high surrogate that
waits for its partner; and whether every surrogate so far has one. -/
structure Quoted where
  content : List Char := []
  waiting : Option Nat := none
  paired : Bool := true
  deriving DecidableEq, Repr

namespace Quoted

/-- The next character is not the partner of a waiting surrogate. -/
def settle (q : Quoted) : Quoted :=
  { q with waiting := none, paired := q.paired && q.waiting.isNone }

/-- A character that stands for itself. -/
def add (q : Quoted) (c : Char) : Quoted :=
  let q := q.settle
  { q with content := c :: q.content }

/-- A UTF-16 unit given by its number. -/
def addUnit (q : Quoted) (u : Nat) : Quoted :=
  if 0xDC00 ≤ u ∧ u ≤ 0xDFFF then
    match q.waiting with
    | some h =>
      { q with
        content := Char.ofNat (0x10000 + (h - 0xD800) * 0x400 + (u - 0xDC00)) :: q.content
        waiting := none }
    | none => { q with paired := false }
  else if 0xD800 ≤ u ∧ u ≤ 0xDBFF then { q.settle with waiting := some u }
  else q.add (Char.ofNat u)

/-- The token of a text that ends here. -/
def token (q : Quoted) : Token :=
  let q := q.settle
  if q.paired then .text (String.ofList q.content.reverse) else .unpaired

end Quoted

/-- The character that a one-letter escape stands for. -/
def escaped? : Char → Option Char
  | '"' => some '"'
  | '\\' => some '\\'
  | '/' => some '/'
  | 'b' => some '\x08'
  | 'f' => some '\x0c'
  | 'n' => some '\n'
  | 'r' => some '\r'
  | 't' => some '\t'
  | _ => none

/-! ## States -/

/-- How much of a number has been read. -/
inductive Stage where
  | minus
  | zero
  | whole
  | point
  | fraction
  | mark
  | sign (down : Bool)
  | power (down : Bool)
  deriving DecidableEq, Repr

/-- Whether a number may end at a stage. -/
def Stage.complete : Stage → Bool
  | .zero | .whole | .fraction | .power _ => true
  | .minus | .point | .mark | .sign _ => false

/-- What the lexer is in the middle of. -/
inductive State where
  | between
  | word (rest : List Char) (token : Token)
  | number (stage : Stage) (n : Number)
  | text (q : Quoted)
  | escape (q : Quoted)
  | unit (q : Quoted) (digits : Nat) (value : Nat)
  | stopped
  deriving DecidableEq, Repr

/-- The text is not JSON from here on. -/
def refuse : List Token × State := ([.invalid], .stopped)

/-- A character where a token may begin. -/
def start (c : Char) : List Token × State :=
  if isGap c then ([], .between)
  else match c with
  | '{' => ([.openObject], .between)
  | '}' => ([.closeObject], .between)
  | '[' => ([.openArray], .between)
  | ']' => ([.closeArray], .between)
  | ':' => ([.colon], .between)
  | ',' => ([.comma], .between)
  | '"' => ([], .text {})
  | 't' => ([], .word ['r', 'u', 'e'] (.bool true))
  | 'f' => ([], .word ['a', 'l', 's', 'e'] (.bool false))
  | 'n' => ([], .word ['u', 'l', 'l'] .null)
  | '-' => ([], .number .minus { negative := true, whole := 0 })
  | '0' => ([], .number .zero { whole := 0 })
  | c => match digit? c with
    | some d => ([], .number .whole { whole := d })
    | none => refuse

/-- One more digit of a power of ten. -/
def Number.addPower (n : Number) (down : Bool) (d : Nat) : Number :=
  let p := (n.exponent.getD 0).natAbs * 10 + d
  { n with exponent := some (if down then -p else p) }

/-- How a number goes on with a character, if it does. -/
def more? (stage : Stage) (n : Number) (c : Char) : Option (Stage × Number) :=
  match stage, digit? c with
  | .minus, some d => some (if d = 0 then .zero else .whole, { n with whole := d })
  | .whole, some d => some (.whole, { n with whole := n.whole * 10 + d })
  | .point, some d | .fraction, some d => some (.fraction, { n with fraction := n.fraction ++ [d] })
  | .mark, some d => some (.power false, n.addPower false d)
  | .sign down, some d | .power down, some d => some (.power down, n.addPower down d)
  | .zero, none | .whole, none =>
    if c = '.' then some (.point, n) else if c = 'e' ∨ c = 'E' then some (.mark, n) else none
  | .fraction, none => if c = 'e' ∨ c = 'E' then some (.mark, n) else none
  | .mark, none =>
    if c = '+' then some (.sign false, n) else if c = '-' then some (.sign true, n) else none
  | _, _ => none

/-- The tokens that a character completes, and the state after it. -/
def feed : State → Char → List Token × State
  | .between, c => start c
  | .word [] t, c => (t :: (start c).1, (start c).2)
  | .word (e :: rest) t, c =>
    if c = e then if rest = [] then ([t], .between) else ([], .word rest t) else refuse
  | .number stage n, c =>
    match more? stage n c with
    | some (stage, n) => ([], .number stage n)
    | none => if stage.complete then (.number n :: (start c).1, (start c).2) else refuse
  | .text q, c =>
    if c = '"' then ([q.token], .between)
    else if c = '\\' then ([], .escape q)
    else if c < ' ' then refuse
    else ([], .text (q.add c))
  | .escape q, c =>
    if c = 'u' then ([], .unit q 0 0)
    else match escaped? c with
      | some e => ([], .text (q.add e))
      | none => refuse
  | .unit q digits value, c =>
    match Hex.value? c with
    | some d =>
      if digits = 3 then ([], .text (q.addUnit (value * 16 + d)))
      else ([], .unit q (digits + 1) (value * 16 + d))
    | none => refuse
  | .stopped, _ => ([], .stopped)

/-- The tokens that the end of the text completes. -/
def finish : State → List Token
  | .between | .stopped => []
  | .number stage n => if stage.complete then [.number n] else [.invalid]
  | .word [] t => [t]
  | .word _ _ | .text _ | .escape _ | .unit _ _ _ => [.invalid]

/-- The tokens of a text, read from a state on. -/
def lexFrom : State → List Char → List Token
  | st, [] => finish st
  | st, c :: cs => (feed st c).1 ++ lexFrom (feed st c).2 cs

/-- The tokens of a text. -/
def lex (s : String) : List Token := lexFrom .between s.toList

/-! ## Reading a text in two parts -/

/-- The tokens that a stretch of text completes. -/
def emitted : State → List Char → List Token
  | _, [] => []
  | st, c :: cs => (feed st c).1 ++ emitted (feed st c).2 cs

/-- The state after a stretch of text. -/
def after (st : State) (cs : List Char) : State := cs.foldl (fun st c => (feed st c).2) st

theorem lexFrom_append (st : State) (p q : List Char) :
    lexFrom st (p ++ q) = emitted st p ++ lexFrom (after st p) q := by
  induction p generalizing st with
  | nil => rfl
  | cons c p ih => simp [lexFrom, emitted, after, ih, List.append_assoc]

end ReadThrough.Json
