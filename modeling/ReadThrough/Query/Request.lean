import ReadThrough.Key.Json
import ReadThrough.Paging.Page
import ReadThrough.Store.Options
import ReadThrough.Query.Error
/-!
# Requests

A `Request` says which rows of an entity are wanted: by key, at random, or as a page of the ordered
rows. Its `mode` settles which of these it is: keys come first, then a random sample, then a page.
-/

namespace ReadThrough

open Json

/-- Which rows are wanted, and what of them will be looked at. -/
structure Request where
  ids : Option (List Key) := none
  random : Option UInt32 := none
  category : Option String := none
  page : Option Page := none
  orderBy : Option Order := none
  fields : Option (List String) := none
  deriving DecidableEq, Repr, Inhabited

/-- How a request is answered. -/
inductive Mode where
  | ids (keys : List Key)
  | random (n : UInt32)
  | page (p : Page)
  deriving DecidableEq, Repr, Inhabited

namespace Request

/-- The mode of a request. An empty list of keys and a sample of none count as not given; without
any wish the first page is meant. -/
def mode (r : Request) : Except QueryError Mode :=
  match r.ids.filter (· ≠ []), r.random.filter (0 < ·) with
  | some _, some _ => .error (.malformed .idsWithRandom)
  | some keys, none => .ok (.ids keys)
  | none, some n => .ok (.random n)
  | none, none => .ok (.page (r.page.getD (.offset 1 none)))

/-! ## Requests as JSON -/

/-- The fields of an order. -/
def orderFields : List (Field PagingError Order) :=
  [.req "column" (single Token.text?) fun o v => { o with column := v },
   .opt "direction" Direction.read fun o v => { o with direction := v }]

/-- The fields of a request in their order. -/
def requestFields : List (Field PagingError Request) :=
  [.opt "ids" (nullable (list Key.ofToken?)) fun r v => { r with ids := v },
   .opt "random" (nullable (single Token.uint32?)) fun r v => { r with random := v },
   .opt "category" (nullable (single Token.text?)) fun r v => { r with category := v },
   .opt "page" (nullable Page.read) fun r v => { r with page := v },
   .opt "order_by" (nullable (record orderFields { column := "" })) fun r v =>
     { r with orderBy := v },
   .opt "fields" (nullable (list Token.text?)) fun r v => { r with fields := v }]

/-- Reads a request. -/
def read : Reader PagingError Request := record requestFields {}

/-- The tokens of an order. -/
def orderTokens (o : Order) : List Token :=
  object [("column", ofText o.column), ("direction", ofText o.direction.name)]

/-- The tokens of a request; fields without a value are left out. -/
def tokens (r : Request) : List Token :=
  object <|
    optional "ids" (r.ids.map fun keys => array (keys.map fun k => [k.token])) ++
    optional "random" (r.random.map fun n => ofInt n.toNat) ++
    optional "category" (r.category.map ofText) ++
    optional "page" (r.page.map Page.tokens) ++
    optional "order_by" (r.orderBy.map orderTokens) ++
    optional "fields" (r.fields.map fun names => array (names.map ofText))

/-- A request as JSON text. -/
def toJson (r : Request) : String := write r.tokens

/-- The request of a JSON text. -/
def ofJson (s : String) : Except QueryError Request :=
  match decode read s with
  | .ok r => .ok r
  | .error .form => .error (.malformed (.descriptor none))
  | .error (.refused reason) => .error (.malformed (.descriptor (some reason)))

/-! ## Requests step by step -/

/-- The request for rows by key. -/
def byIds (keys : List Key) : Request := { ids := some keys }

/-- The request for a random sample. -/
def sample (n : UInt32) : Request := { random := some n }

/-- The request for a page by number. -/
def offset (page size : UInt32) : Request := { page := some (.offset page (some size)) }

/-- The request for the rows after a cursor. -/
def cursor (after : Option String) (first : Option UInt32) : Request :=
  { page := some (.cursor after first) }

/-- Only the rows of a category. -/
def withCategory (r : Request) (name : String) : Request := { r with category := some name }

/-- Ordered by a column. -/
def withOrder (r : Request) (column : String) (direction : Direction) : Request :=
  { r with orderBy := some { column, direction } }

/-- With an eye to some fields. -/
def withFields (r : Request) (names : List String) : Request := { r with fields := some names }

end Request

end ReadThrough
