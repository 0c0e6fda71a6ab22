import ReadThrough.Json.Double
import ReadThrough.Json.Reader
import ReadThrough.Settings.Value
/-!
# Settings in JSON

The tokens of a text are gathered into a tree. The lists and tables that are still open while this goes
on form a stack, of which there are never more than 127. Of two members of one name the later stays.
-/

namespace ReadThrough.Setting

open Json

/-- An open list, or an open table with the name of the member at hand. -/
inductive Frame where
  | list (items : List Setting)
  | table (members : SettingTable) (name : String)

/-- How many lists and tables may be open at a time. -/
def maxNesting : Nat := 127

/-- The value of a number: an integer that 64 bits hold with or without a sign, or a double. -/
def ofNumber? (n : Number) : Option Setting :=
  match n.int?.filter fun i => decide (Int64.minValue.toInt ≤ i ∧ i < UInt64.size) with
  | some i => some (.int i)
  | none => n.toDouble?.map .real

/-- The value of a token that is a value by itself. -/
def plain? : Token → Option Setting
  | .null => some .null
  | .bool b => some (.bool b)
  | .number n => ofNumber? n
  | .text s => some (.text s)
  | _ => none

/-- A complete value goes into the frame at the top. -/
def complete (v : Setting) : List Frame → List Frame
  | .list items :: frames => .list (items ++ [v]) :: frames
  | .table members name :: frames => .table (members.put name v) name :: frames
  | [] => []

/-- The tree of the tokens that are left, given what has to come next. Under the open frames lies a
list that takes the whole tree. -/
def gather : Expects → List Frame → List Token → Option Setting
  | .next, [.list [v]], [] => some v
  | _, _, [] => none
  | e, frames, t :: ts =>
    match e, frames, t with
    | .value, frames, .openArray | .element, frames, .openArray =>
      if frames.length ≤ maxNesting then gather .element (.list [] :: frames) ts else none
    | .value, frames, .openObject | .element, frames, .openObject =>
      if frames.length ≤ maxNesting then gather .member (.table [] "" :: frames) ts else none
    | .element, .list items :: frames, .closeArray
    | .next, .list items :: frames@(_ :: _), .closeArray =>
      gather .next (complete (.list items) frames) ts
    | .member, .table members _ :: frames, .closeObject
    | .next, .table members _ :: frames, .closeObject =>
      gather .next (complete (.table members) frames) ts
    | .member, .table members _ :: frames, .text name
    | .name, .table members _ :: frames, .text name =>
      gather .colon (.table members name :: frames) ts
    | .colon, frames, .colon => gather .value frames ts
    | .next, .list items :: f :: frames, .comma => gather .value (.list items :: f :: frames) ts
    | .next, .table members name :: frames, .comma => gather .name (.table members name :: frames) ts
    | .value, frames, t | .element, frames, t =>
      match plain? t with
      | some v => gather .next (complete v frames) ts
      | none => none
    | _, _, _ => none

/-- The tree of a JSON text. -/
def ofJson? (s : String) : Option Setting := gather .value [.list []] (lex s)

end ReadThrough.Setting
