import ReadThrough.Settings.Value
/-!
# Paths into settings

Settings from several sources are laid over each other. A table that is laid over a table adds to it;
anything else takes the place of what was there. A name at the top of a source may be a path, such as
`cache.ttl_ms` or `peers[0].name`, that leads to the place of the value.
-/

namespace ReadThrough

/-- A step on the way to a value. -/
inductive Access where
  | member (name : String)
  /-- The place in a list; a negative one counts from the end. -/
  | item (place : Int)
  deriving DecidableEq, Repr

namespace Access

/-- Whether a character may stand in a name on a path. -/
def isNameChar (c : Char) : Bool := c.isAlphanum || c = '_' || c = '-'

/-- Whether a character is a blank or a tab. -/
def isGap (c : Char) : Bool := c = ' ' || c = '\t'

/-- A place in a list between its brackets, as far as 64 bits hold it. -/
def place? (cs : List Char) : Option Int := do
  let cs := ((cs.dropWhile isGap).reverse.dropWhile isGap).reverse
  let place : Int ← match cs with
    | '-' :: cs => (Setting.digits? cs).map fun n => -n
    | cs => (Setting.digits? cs).map fun n => n
  if Int64.minValue.toInt ≤ place ∧ place ≤ Int64.maxValue.toInt then some place else none

/-- The steps after the first. What is read so far of the step at hand comes with the mark that opened
it. -/
def stepsFrom : (mark : Char) → (read : List Char) → List Char → Option (List Access)
  | '[', read, ']' :: cs => do
    let here := Access.item (← place? read)
    match cs with
    | [] => some [here]
    | '.' :: cs => return here :: (← stepsFrom '.' [] cs)
    | '[' :: cs => return here :: (← stepsFrom '[' [] cs)
    | _ => none
  | '[', read, c :: cs => stepsFrom '[' (read ++ [c]) cs
  | '[', _, [] => none
  | _, read, [] => if read.isEmpty then none else some [.member (String.ofList read)]
  | mark, read, c :: cs =>
    if isNameChar c then stepsFrom mark (read ++ [c]) cs
    else if read.isEmpty then none
    else if c = '.' ∨ c = '[' then do
      return .member (String.ofList read) :: (← stepsFrom c [] cs)
    else none

/-- The steps of a path. A text that is not a path is a single name. -/
def ofPath (path : String) : List Access := (stepsFrom '.' [] path.toList).getD [.member path]

end Access

namespace Setting

/-! ## Laying over -/

mutual

/-- A value laid over another. -/
def lay (old : Setting) : Setting → Setting
  | .table t => .table (layAll old.members t)
  | v => v

/-- The members of a table laid over those of another. -/
def layAll (old : SettingTable) : SettingTable → SettingTable
  | [] => old
  | (name, v) :: t => layAll (old.put name (lay (old.get name) v)) t

end

/-- A list made long enough for a place in it, and the place counted from its start. -/
def reach (l : List Setting) : Int → List Setting × Nat
  | .ofNat n => (l ++ List.replicate (n + 1 - l.length) .null, n)
  | .negSucc n =>
    if n < l.length then (l, l.length - (n + 1))
    else (List.replicate (n + 1 - l.length) .null ++ l, 0)

/-- Changes the value at the end of a path. What stands in the way of the path is replaced. -/
def modifyAt : List Access → (Setting → Setting) → Setting → Setting
  | [], f, v => f v
  | .member name :: path, f, v =>
    .table (v.members.put name (modifyAt path f (v.members.get name)))
  | .item place :: path, f, v =>
    let (l, i) := reach v.items place
    .list (l.set i (modifyAt path f (l.getD i .null)))

/-- Whether a path ends in a list. -/
def endsInList (path : List Access) : Bool :=
  match path.getLast? with
  | some (.item _) => true
  | _ => false

/-- Sets the value at the end of a path: under a name it is laid over what is there, in a list it takes
its place. -/
def setAt (path : List Access) (v : Setting) (root : Setting) : Setting :=
  modifyAt path (fun old => if endsInList path then v else lay old v) root

/-- Lays a source over what the sources before it have said. -/
def overlay (root : Setting) (source : SettingTable) : Setting :=
  source.foldl (fun root (m : String × Setting) => setAt (Access.ofPath m.1) m.2 root) root

end Setting

end ReadThrough
