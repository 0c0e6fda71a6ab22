import ReadThrough.Paging.Error
import ReadThrough.Json.Reader
import ReadThrough.Json.Writer
/-!
# Which page is asked for

A page is given by its number and size, or by the cursor it follows and a count. In JSON both are one
record with four fields that may be missing or null; a record that sets fields of both kinds is
refused as soon as it ends.
-/

namespace ReadThrough

open Json

/-- A page of an ordered list of rows. -/
inductive Page where
  | offset (page : UInt32) (size : Option UInt32)
  | cursor (after : Option String) (first : Option UInt32)
  deriving DecidableEq, Repr, Inhabited

namespace Page

/-- The four fields of a page as they were given. -/
structure Fields where
  page : Option UInt32 := none
  size : Option UInt32 := none
  after : Option String := none
  first : Option UInt32 := none
  deriving DecidableEq, Repr

/-- A page by number when a number or a size is given, otherwise a page by cursor. -/
def ofFields (f : Fields) : Except PagingError Page :=
  if f.page.isSome ∨ f.size.isSome then
    if f.after.isSome ∨ f.first.isSome then .error .mixed
    else .ok (.offset (f.page.getD 1) f.size)
  else .ok (.cursor f.after f.first)

/-- The fields in their order. -/
def fields : List (Field PagingError Fields) :=
  [.opt "page" (nullable (single Token.uint32?)) fun f v => { f with page := v },
   .opt "size" (nullable (single Token.uint32?)) fun f v => { f with size := v },
   .opt "after" (nullable (single Token.text?)) fun f v => { f with after := v },
   .opt "first" (nullable (single Token.uint32?)) fun f v => { f with first := v }]

/-- Reads a page. -/
def read : Reader PagingError Page := fun ts => do
  let (f, rest) ← record fields {} ts
  match ofFields f with
  | .ok page => .ok (page, rest)
  | .error reason => .error (.refused reason)

/-- The tokens of a page; fields without a value are left out. -/
def tokens : Page → List Token
  | .offset page size =>
    object (("page", ofInt page.toNat) :: optional "size" (size.map fun n => ofInt n.toNat))
  | .cursor after first =>
    object (optional "after" (after.map ofText) ++
      optional "first" (first.map fun n => ofInt n.toNat))

/-- A page as JSON text. -/
def toJson (p : Page) : String := write p.tokens

/-- The page of a JSON text. -/
def ofJson (s : String) : Except (Fault PagingError) Page := decode read s

end Page

end ReadThrough
