/-!
# URL-safe base64 without padding

Bytes are written in groups of three as four symbols of the alphabet `A-Z a-z 0-9 - _`; one or two
bytes at the end take two or three symbols, whose unused low bits are zero. Reading is strict: a text
is accepted only if it is what writing produces.
-/

namespace ReadThrough.Base64Url

/-- The symbol of six bits. -/
def symbol (n : Nat) : Char :=
  if n < 26 then Char.ofNat ('A'.toNat + n)
  else if n < 52 then Char.ofNat ('a'.toNat + (n - 26))
  else if n < 62 then Char.ofNat ('0'.toNat + (n - 52))
  else if n = 62 then '-'
  else '_'

/-- The six bits of a symbol. -/
def sextet? (c : Char) : Option Nat :=
  if 'A' ≤ c ∧ c ≤ 'Z' then some (c.toNat - 'A'.toNat)
  else if 'a' ≤ c ∧ c ≤ 'z' then some (c.toNat - 'a'.toNat + 26)
  else if '0' ≤ c ∧ c ≤ '9' then some (c.toNat - '0'.toNat + 52)
  else if c = '-' then some 62
  else if c = '_' then some 63
  else none

/-- Bytes as symbols. -/
def encode : List UInt8 → List Char
  | a :: b :: c :: rest =>
    symbol (a.toNat / 4) :: symbol (a.toNat % 4 * 16 + b.toNat / 16) ::
    symbol (b.toNat % 16 * 4 + c.toNat / 64) :: symbol (c.toNat % 64) :: encode rest
  | [a, b] =>
    [symbol (a.toNat / 4), symbol (a.toNat % 4 * 16 + b.toNat / 16), symbol (b.toNat % 16 * 4)]
  | [a] => [symbol (a.toNat / 4), symbol (a.toNat % 4 * 16)]
  | [] => []

/-- The bytes of a text of symbols. A single symbol at the end, a foreign symbol and a low bit that
is not zero are refused. -/
def decode : List Char → Option (List UInt8)
  | a :: b :: c :: d :: rest => do
    let a ← sextet? a; let b ← sextet? b; let c ← sextet? c; let d ← sextet? d
    let tail ← decode rest
    return .ofNat (a * 4 + b / 16) :: .ofNat (b % 16 * 16 + c / 4) :: .ofNat (c % 4 * 64 + d) :: tail
  | [a, b, c] => do
    let a ← sextet? a; let b ← sextet? b; let c ← sextet? c
    if c % 4 = 0 then return [.ofNat (a * 4 + b / 16), .ofNat (b % 16 * 16 + c / 4)] else none
  | [a, b] => do
    let a ← sextet? a; let b ← sextet? b
    if b % 16 = 0 then return [.ofNat (a * 4 + b / 16)] else none
  | [_] => none
  | [] => some []

end ReadThrough.Base64Url
