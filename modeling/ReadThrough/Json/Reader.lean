import ReadThrough.Json.Lexer
/-!
# Reading values from tokens

A `Reader` takes a value from the front of a token list and gives the rest back. Reading goes from
left to right and the first fault ends it, whatever follows. There are two kinds of fault: the tokens
have the wrong form, or a value of the right form is refused by its type for a reason of its own.
-/

namespace ReadThrough.Json

/-- Why reading ended. -/
inductive Fault (ε : Type) where
  | form
  | refused (reason : ε)
  deriving DecidableEq, Repr

/-- A value at the front of a token list, and what follows it. -/
abbrev Reader (ε α : Type) := List Token → Except (Fault ε) (α × List Token)

variable {ε α σ : Type}

/-! ## Values of one token -/

/-- The text of a token. -/
def Token.text? : Token → Option String
  | .text s => some s
  | _ => none

/-- The truth value of a token. -/
def Token.bool? : Token → Option Bool
  | .bool b => some b
  | _ => none

/-- The integer of a token. -/
def Token.int? : Token → Option Int
  | .number n => n.int?
  | _ => none

/-- An integer between zero and a bound, the bound left out. -/
def Token.below? (bound : Nat) (t : Token) : Option Nat :=
  t.int?.bind fun i => if 0 ≤ i ∧ i < bound then some i.toNat else none

/-- An unsigned integer of 32 bits. -/
def Token.uint32? (t : Token) : Option UInt32 := (t.below? UInt32.size).map UInt32.ofNat

/-- An unsigned integer of 64 bits. -/
def Token.uint64? (t : Token) : Option UInt64 := (t.below? UInt64.size).map UInt64.ofNat

/-- A value that is written as one token. -/
def single (one : Token → Option α) : Reader ε α
  | [] => .error .form
  | t :: rest => match one t with
    | some a => .ok (a, rest)
    | none => .error .form

/-- The values of a list after its opening bracket and before its closing one. -/
def elements (one : Token → Option α) : Reader ε (List α)
  | t :: .comma :: rest => match one t with
    | some a => (elements one rest).map fun (l, rest) => (a :: l, rest)
    | none => .error .form
  | t :: .closeArray :: rest => match one t with
    | some a => .ok ([a], rest)
    | none => .error .form
  | _ => .error .form

/-- A list of values that are written as one token each. -/
def list (one : Token → Option α) : Reader ε (List α)
  | .openArray :: .closeArray :: rest => .ok ([], rest)
  | .openArray :: rest => elements one rest
  | _ => .error .form

/-! ## Alternatives -/

/-- A value, or `null` for none. -/
def nullable (read : Reader ε α) : Reader ε (Option α)
  | .null :: rest => .ok (none, rest)
  | ts => (read ts).map fun (a, rest) => (some a, rest)

/-- One of several names; a name may also be the only member of an object, with `null` under it. -/
def choice (names : List (String × α)) : Reader ε α
  | .text s :: rest => match names.lookup s with
    | some a => .ok (a, rest)
    | none => .error .form
  | .openObject :: .text s :: .colon :: .null :: .closeObject :: rest => match names.lookup s with
    | some a => .ok (a, rest)
    | none => .error .form
  | _ => .error .form

/-! ## Values that nobody asks for -/

/-- A bracket that is open while a value is skipped. -/
inductive Nest where
  | array
  | object
  deriving DecidableEq, Repr

/-- What has to come next while a value is skipped. -/
inductive Expects where
  | value
  | element
  | member
  | name
  | colon
  | next
  deriving DecidableEq, Repr

/-- Skips to the end of the value at hand: only the brackets have to match, and a number may be as
large and a text as unpaired as it likes. -/
def skipFrom : Expects → List Nest → List Token → Option (List Token)
  | .next, [], rest => some rest
  | _, _, [] => none
  | e, nest, t :: rest =>
    match e, nest, t with
    | .value, nest, .openArray | .element, nest, .openArray => skipFrom .element (.array :: nest) rest
    | .value, nest, .openObject | .element, nest, .openObject =>
      skipFrom .member (.object :: nest) rest
    | .element, _ :: nest, .closeArray => skipFrom .next nest rest
    | .value, nest, .null | .value, nest, .bool _ | .value, nest, .number _ | .value, nest, .text _
    | .value, nest, .unpaired | .element, nest, .null | .element, nest, .bool _
    | .element, nest, .number _ | .element, nest, .text _ | .element, nest, .unpaired =>
      skipFrom .next nest rest
    | .member, _ :: nest, .closeObject => skipFrom .next nest rest
    | .member, nest, .text _ | .member, nest, .unpaired | .name, nest, .text _
    | .name, nest, .unpaired => skipFrom .colon nest rest
    | .colon, nest, .colon => skipFrom .value nest rest
    | .next, .array :: nest, .comma => skipFrom .value (.array :: nest) rest
    | .next, .array :: nest, .closeArray => skipFrom .next nest rest
    | .next, .object :: nest, .comma => skipFrom .name (.object :: nest) rest
    | .next, .object :: nest, .closeObject => skipFrom .next nest rest
    | _, _, _ => none

/-- Skips one value. -/
def skip (ts : List Token) : Except (Fault ε) (List Token) :=
  match skipFrom .value [] ts with
  | some rest => .ok rest
  | none => .error .form

/-! ## Records -/

/-- A field of a record: its name, whether it must be there, and how its value is taken into the
record read so far. -/
structure Field (ε σ : Type) where
  name : String
  required : Bool
  read : σ → Reader ε σ

/-- A field that may be missing and sets a part of the record. -/
def Field.opt (name : String) (read : Reader ε α) (set : σ → α → σ) : Field ε σ where
  name := name
  required := false
  read acc ts := (read ts).map fun (a, rest) => (set acc a, rest)

/-- A field that must be there and sets a part of the record. -/
def Field.req (name : String) (read : Reader ε α) (set : σ → α → σ) : Field ε σ :=
  { Field.opt name read set with required := true }

/-- The members of a record after its opening brace. A known name counts once, an unknown one is
skipped. Every member takes three tokens at least, so as many rounds as tokens are enough. -/
def members (fields : List (Field ε σ)) : Nat → List String → σ → Reader ε σ
  | 0, _, _, _ => .error .form
  | rounds + 1, seen, acc, .text name :: .colon :: ts => do
    let (seen, acc, rest) ← match fields.find? (·.name = name) with
      | some field =>
        if name ∈ seen then .error .form
        else (field.read acc ts).map fun (acc, rest) => (name :: seen, acc, rest)
      | none => (skip ts).map fun rest => (seen, acc, rest)
    match rest with
    | .comma :: rest => members fields rounds seen acc rest
    | .closeObject :: rest =>
      if fields.all fun f => !f.required || seen.contains f.name then .ok (acc, rest)
      else .error .form
    | _ => .error .form
  | _ + 1, _, _, _ => .error .form

/-- The fields of a record in their order, after its opening bracket. Fields at the end may be left
out if none of them must be there. -/
def positions : List (Field ε σ) → (first : Bool) → σ → Reader ε σ
  | [], _, acc, .closeArray :: rest => .ok (acc, rest)
  | [], _, _, _ => .error .form
  | fields, _, acc, .closeArray :: rest =>
    if fields.any (·.required) then .error .form else .ok (acc, rest)
  | field :: fields, true, acc, ts => do
    let (acc, rest) ← field.read acc ts
    positions fields false acc rest
  | field :: fields, false, acc, .comma :: ts => do
    let (acc, rest) ← field.read acc ts
    positions fields false acc rest
  | _ :: _, false, _, _ => .error .form

/-- A record, as an object of its fields in any order or as a list of them in theirs. -/
def record (fields : List (Field ε σ)) (blank : σ) : Reader ε σ
  | .openObject :: .closeObject :: rest =>
    if fields.any (·.required) then .error .form else .ok (blank, rest)
  | .openObject :: ts => members fields ts.length [] blank ts
  | .openArray :: ts => positions fields true blank ts
  | _ => .error .form

/-! ## Whole texts -/

/-- The value of a token list that holds nothing else. -/
def readAll (read : Reader ε α) (ts : List Token) : Except (Fault ε) α := do
  match ← read ts with
  | (a, []) => .ok a
  | (_, _ :: _) => .error .form

/-- The value of a text that holds nothing else. -/
def decode (read : Reader ε α) (s : String) : Except (Fault ε) α := readAll read (lex s)

end ReadThrough.Json
