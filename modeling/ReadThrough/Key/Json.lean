import ReadThrough.Key
import ReadThrough.Json.Reader
import ReadThrough.Json.Writer
/-!
# Keys in JSON

A key is written as a bare integer or text and read back from one, so the two kinds stay apart.
-/

namespace ReadThrough.Key

open Json

/-- The token of a key. -/
def token : Key → Token
  | .int n => .number (.ofInt n.toInt)
  | .text s => .text s

/-- The key of a token: an integer of 64 bits, or a text. -/
def ofToken? : Token → Option Key
  | .number n => n.int?.bind fun i =>
    if Int64.minValue.toInt ≤ i ∧ i ≤ Int64.maxValue.toInt then some (.int (.ofInt i)) else none
  | .text s => some (.text s)
  | _ => none

/-- A key as JSON text. -/
def toJson (k : Key) : String := write [k.token]

/-- The key of a JSON text. -/
def ofJson? (s : String) : Option Key :=
  (decode (single ofToken?) s : Except (Fault Empty) Key).toOption

/-- The token of a key reads as that key. -/
@[simp] theorem ofToken?_token (k : Key) : ofToken? k.token = some k := by
  cases k with
  | int n =>
    simp only [token, ofToken?, Json.Number.int?_ofInt, Option.bind_some, Int64.ofInt_toInt]
    exact if_pos ⟨Int64.minValue_le_toInt n, Int64.toInt_le n⟩
  | text s => rfl

end ReadThrough.Key
