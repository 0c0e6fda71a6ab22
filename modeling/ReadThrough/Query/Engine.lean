import ReadThrough.Paging.Cursor
import ReadThrough.Paging.Limits
import ReadThrough.Query.Plan
import ReadThrough.Query.Request
import ReadThrough.Query.Selection
import ReadThrough.Random.Source
/-!
# Answering requests

`resolve` is the plan that answers a request. Each mode comes down to a list of keys whose rows are
loaded by way of the cache. Only when relations are asked for are whole rows fetched, and then put into
the cache. A request is refused for what it says, unless it names a category that is not there: then it
is answered with nothing, whatever else it says. It fails only when a store fails.
-/

namespace ReadThrough

/-- Where the rows of one page stand among all that match. -/
structure Connection where
  /-- Whether more rows match than a page holds; the cursor of the page is not taken into account. -/
  hasNextPage : Bool := false
  endCursor : Option String := none
  totalCount : UInt64 := 0
  deriving DecidableEq, Repr, Inhabited

/-- The answer to a request. -/
structure Resolution (ρ : Type) where
  items : List ρ
  /-- Only pages after a cursor have it. -/
  connection : Option Connection := none
  deriving DecidableEq, Repr

/-- How a category is found by name: as a row of an entity. -/
structure CategoryResolver (ρ : Type) where
  entity : Entity ρ
  nameColumn : String

/-- The options that find a category: the first with the name, by key. -/
def CategoryResolver.options {ρ : Type} (c : CategoryResolver ρ) (name : String) : FindOptions where
  filter := [{ column := c.nameColumn, comparison := .eq, value := .text name }]
  order := [c.entity.natural]
  take := some 1

/-- A plan that may end in an error. -/
abbrev Query (ρ : Type) := ExceptT QueryError (Plan ρ)

namespace Query

variable {ρ α : Type}

/-- Asks for something that a store may fail to deliver. -/
def tryAsk (q : Ask ρ) (result : q.Answer → Except StoreError α) : Query ρ α :=
  ExceptT.mk (.ask q fun answer => .done ((result answer).mapError .store))

/-- Asks for something that is always delivered. -/
def ask (q : Ask ρ) : Query ρ q.Answer := ExceptT.mk (.ask q fun answer => .done (.ok answer))

/-- Gives up for the request's fault. -/
def refuse (reason : Malformation) : Query ρ α := throw (.malformed reason)

/-- The first error of several loads, or the rows that were found in the order of the loads. -/
def collect (results : List (Except StoreError (Option ρ))) : Except StoreError (List ρ) :=
  (results.mapM id).map (·.filterMap id)

/-- The rows under the given keys; a key without a row is passed over. -/
def loadMany (keys : List Key) : Query ρ (List ρ) := tryAsk (.load keys) collect

/-- The number of rows that pass a filter. -/
def count (f : Filter) : Query ρ UInt64 := tryAsk (.count f) id

/-- The keys that the options ask for. -/
def findKeys (kind : String) (o : FindOptions) : Query ρ (List Key) := tryAsk (.findKeys kind o) id

end Query

variable {ρ : Type}

/-- What the engine of an entity knows besides the request. -/
structure Engine (ρ : Type) where
  entity : Entity ρ
  limits : Limits
  resolver : Option (CategoryResolver ρ) := none

namespace Engine

open Query

/-- The filter of a category, or none if there is no category of the name. -/
def categoryFilter (g : Engine ρ) : Option String → Query ρ (Option Filter)
  | none => return some []
  | some name => match g.entity.categoryColumn, g.resolver with
    | none, _ => refuse (.noCategoryColumn g.entity.segment)
    | some _, none => refuse (.noCategoryResolver g.entity.segment)
    | some column, some resolver => do
      let keys ← findKeys resolver.entity.kind (resolver.options name)
      return keys.head?.map fun k =>
        [{ column, comparison := .eq, value := k.toValue }]

/-- The rows in a window. When relations are asked for, the rows are fetched as a whole and put into
the cache; otherwise their keys are found and the rows are loaded. -/
def fetchWindow (g : Engine ρ) (o : FindOptions) (s : Selection) : Query ρ (List ρ) :=
  if s.hasRelations then do
    let epoch ← ask .epoch
    let rows ← tryAsk (.findMany o) id
    ask (.prime rows epoch)
    return rows
  else do
    let keys ← findKeys g.entity.kind o
    loadMany keys

/-- A random sample: a window at a random place of the rows by key, in random order. -/
def sample (g : Engine ρ) (filter : Filter) (n : UInt32) : Query ρ (Resolution ρ) := do
  let n := (g.limits.sample n).toUInt64
  let total ← count filter
  let r ← ask .unit
  let keys ← findKeys g.entity.kind
    { filter, order := [g.entity.natural], skip := windowStart total n r, take := some n }
  let keys ← ask (.shuffle keys)
  let items ← loadMany (keys.take n.toNat)
  return { items }

/-- The order of numbered pages: by the column that the request names, then by key. -/
def pageOrder (g : Engine ρ) (orderBy : Option Order) : Query ρ (List Order) :=
  match orderBy with
  | none => return [g.entity.natural]
  | some o =>
    if !g.entity.hasColumn o.column then refuse (.unknownOrder g.entity.segment o.column)
    else if o.column = g.entity.keyColumn then return [o]
    else return [o, g.entity.natural]

/-- A page by its number. -/
def offsetPage (g : Engine ρ) (filter : Filter) (orderBy : Option Order) (s : Selection)
    (page : UInt32) (size : Option UInt32) : Query ρ (Resolution ρ) := do
  match g.limits.window page size with
  | .error e => refuse (.paging e)
  | .ok window =>
    let order ← g.pageOrder orderBy
    let items ← g.fetchWindow
      { filter, order, skip := window.skip, take := some window.take
        relations := s.relations, select := s.select g.entity } s
    return { items }

/-- The key after which a page starts. A cursor that cannot be read, or whose row is gone, is the same
as none. -/
def cursorStart : Option String → Query ρ (Option Key)
  | none => return none
  | some cursor => match Cursor.decode? cursor with
    | none => return none
    | some k => do
      let found ← loadMany [k]
      return if found.isEmpty then none else some k

/-- The rows after a cursor. -/
def cursorPage (g : Engine ρ) (filter : Filter) (s : Selection) (after : Option String)
    (first : Option UInt32) : Query ρ (Resolution ρ) := do
  let first := (g.limits.first first).toUInt64
  let totalCount ← count filter
  let start ← cursorStart after
  let rest : Filter := start.toList.map fun k =>
    { column := g.entity.keyColumn, comparison := .gt, value := k.toValue }
  let items ← g.fetchWindow
    { filter := filter ++ rest, order := [g.entity.natural], take := some first
      relations := s.relations, select := s.select g.entity } s
  return {
    items
    connection := some {
      hasNextPage := first < totalCount
      endCursor := items.getLast?.map fun row => Cursor.encode (g.entity.key row)
      totalCount } }

/-- The answer when there is no category of the name. -/
def emptyFor : Page → Resolution ρ
  | .offset _ _ => { items := [] }
  | .cursor _ _ => { items := [], connection := some {} }

/-- The plan that answers a request. -/
def resolve (g : Engine ρ) (r : Request) : Query ρ (Resolution ρ) := do
  let s := Selection.ofFields g.entity (r.fields.getD [])
  match ← (liftM r.mode : Query ρ Mode) with
  | .ids keys =>
    let items ← loadMany keys
    return { items }
  | .random n =>
    match ← g.categoryFilter r.category with
    | none => return { items := [] }
    | some filter => g.sample filter n
  | .page p =>
    match ← g.categoryFilter r.category with
    | none => return emptyFor p
    | some filter => match p with
      | .offset page size => g.offsetPage filter r.orderBy s page size
      | .cursor after first => g.cursorPage filter s after first

end Engine

end ReadThrough
