/-!
# Blank characters and byte order marks

The characters with the Unicode property `White_Space`, texts without blanks at their ends, and texts
without a byte order mark in front.
-/

namespace ReadThrough

/-- The code points with the property `White_Space`. -/
def blanks : List Nat :=
  [0x09, 0x0A, 0x0B, 0x0C, 0x0D, 0x20, 0x85, 0xA0, 0x1680, 0x2000, 0x2001, 0x2002, 0x2003, 0x2004,
    0x2005, 0x2006, 0x2007, 0x2008, 0x2009, 0x200A, 0x2028, 0x2029, 0x202F, 0x205F, 0x3000]

/-- Whether a character is blank. -/
def isBlank (c : Char) : Bool := blanks.contains c.toNat

/-- A text without the blanks at its two ends. -/
def trimBlanks (cs : List Char) : List Char :=
  ((cs.dropWhile isBlank).reverse.dropWhile isBlank).reverse

/-- A text without the blanks at its two ends. -/
def trim (s : String) : String := String.ofList (trimBlanks s.toList)

/-- A text without a byte order mark in front. Only one is taken off. -/
def dropMark : List Char → List Char
  | '\ufeff' :: cs => cs
  | cs => cs

end ReadThrough
