import ReadThrough.Text.Hex
/-!
# Identifiers of 128 bits

An identifier is written as 32 hexadecimal digits in lower case, in groups of 8, 4, 4, 4 and 12. It
is read from that form, without the hyphens, between braces, and after `urn:uuid:`, in letters of either
case.
-/

namespace ReadThrough

/-- An identifier of 128 bits. -/
structure Uuid where
  bits : BitVec 128
  deriving DecidableEq, Repr, Inhabited

namespace Uuid

/-- The last `count` hexadecimal digits of a number. -/
def digits : (count n : Nat) → List Char
  | 0, _ => []
  | count + 1, n => digits count (n / 16) ++ [Hex.digit (n % 16)]

/-- The number of hexadecimal digits. -/
def ofDigits? (cs : List Char) : Option Nat :=
  cs.foldlM (fun n c => (Hex.value? c).map (n * 16 + ·)) 0

/-- The lengths of the groups. -/
def groups : List Nat := [8, 4, 4, 4, 12]

/-- Digits in groups with hyphens between them. -/
def hyphenate : List Nat → List Char → List Char
  | [], _ => []
  | [n], cs => cs.take n
  | n :: ns, cs => cs.take n ++ '-' :: hyphenate ns (cs.drop n)

/-- The digits of a text in groups with hyphens between them. -/
def unhyphenate? : List Nat → List Char → Option (List Char)
  | [], cs => if cs = [] then some [] else none
  | [n], cs => if cs.length = n then some cs else none
  | n :: ns, cs =>
    if n ≤ cs.length then
      match cs.drop n with
      | '-' :: rest => (unhyphenate? ns rest).map (cs.take n ++ ·)
      | _ => none
    else none

/-- The text of an identifier. -/
def toString (u : Uuid) : String := String.ofList (hyphenate groups (digits 32 u.bits.toNat))

instance : ToString Uuid := ⟨toString⟩

/-- What an identifier among names of resources begins with, in lower case. -/
def scheme : List Char := ['u', 'r', 'n', ':', 'u', 'u', 'i', 'd', ':']

/-- The digits between braces or after the name of the scheme. -/
def strip (cs : List Char) : Option (List Char) :=
  match cs with
  | '{' :: rest => if rest.getLast? = some '}' then some rest.dropLast else none
  | cs =>
    if (cs.take scheme.length).map Char.toLower = scheme then some (cs.drop scheme.length) else none

/-- The identifier of a text. -/
def ofString? (s : String) : Option Uuid := do
  let cs := s.toList
  let ds ← if cs.length = 32 then some cs
    else unhyphenate? groups ((strip cs).getD cs)
  let n ← ofDigits? ds
  return ⟨.ofNat 128 n⟩

end Uuid

end ReadThrough
