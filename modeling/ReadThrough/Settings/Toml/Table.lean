import ReadThrough.Settings.Value
/-!
# Tables that are being read

A file builds its tables little by little. How a table came about decides what may be added to it: one
that headers have only passed on the way to another may still get a header of its own, and grows by names
with points as well; from then on, as if such names had made it, it gets no header any more. What is under
a name never changes its kind.
-/

namespace ReadThrough.Setting.Toml

/-- How a table came about. -/
inductive Origin where
  /-- A header passed through it. -/
  | implied
  /-- It has a header of its own. -/
  | header
  /-- A name with points passed through it. -/
  | dotted
  deriving DecidableEq, Repr

/-- What a file has under a name. -/
inductive Item where
  | value (v : Setting)
  | table (origin : Origin) (members : List (String × Item))
  /-- Tables with one header; the last is still open. -/
  | tables (done : List Setting) (last : List (String × Item))

/-- Named items. -/
abbrev Items := List (String × Item)

/-- A name with the names of the tables on the way to it. -/
structure DottedName where
  tables : List String
  last : String
  deriving DecidableEq, Repr

/-- All the names. -/
def DottedName.path (n : DottedName) : List String := n.tables ++ [n.last]

mutual

/-- The value of an item. -/
def Item.setting : Item → Setting
  | .value v => v
  | .table _ members => .table (settings members)
  | .tables done last => .list (done ++ [.table (settings last)])

/-- The values of named items. -/
def settings : Items → SettingTable
  | [] => []
  | (name, i) :: t => (name, i.setting) :: settings t

end

/-- Changes what is under a name, if that is allowed; a new name goes to the end. -/
def change? (name : String) (f : Option Item → Option Item) : Items → Option Items
  | [] => (f none).map fun i => [(name, i)]
  | (n, i) :: t =>
    if n = name then (f (some i)).map fun i => (n, i) :: t
    else (change? name f t).map fun t => (n, i) :: t

/-- Changes the members of the table at the end of a header's path. Tables that are missing on the way are
implied, and of several tables with one header the last is meant. -/
def within? (f : Items → Option Items) : List String → Items → Option Items
  | [], t => f t
  | name :: path, t => change? name (fun
    | none => (within? f path []).map (.table .implied)
    | some (.table origin members) => (within? f path members).map (.table origin)
    | some (.tables done last) => (within? f path last).map (.tables done)
    | some (.value _) => none) t

/-- Opens the table of a header. -/
def openTable? (n : DottedName) : Items → Option Items :=
  within? (change? n.last fun
    | none => some (.table .header [])
    | some (.table .implied members) => some (.table .header members)
    | some _ => none) n.tables

/-- Opens one more table of a header in double brackets. -/
def openNext? (n : DottedName) : Items → Option Items :=
  within? (change? n.last fun
    | none => some (.tables [] [])
    | some (.tables done last) => some (.tables (done ++ [.table (settings last)]) [])
    | some _ => none) n.tables

/-- Sets a name that is free, after the names of the tables on the way to it. None of those tables has a
header; but of several tables with one header the last may be passed on the way. -/
def set? (v : Setting) (name : String) : List String → Items → Option Items
  | [], t => change? name (fun
    | none => some (.value v)
    | some _ => none) t
  | parent :: path, t => change? parent (fun
    | none => (set? v name path []).map (.table .dotted)
    | some (.table .implied members) | some (.table .dotted members) =>
      (set? v name path members).map (.table .dotted)
    | some (.tables done last) =>
      if path.isEmpty then none else (set? v name path last).map (.tables done)
    | some (.table .header _) | some (.value _) => none) t

end ReadThrough.Setting.Toml
