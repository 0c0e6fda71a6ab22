import ReadThrough.Paging.Error
/-!
# Limits of a page

`Limits` bound what one request may ask for. A request for numbered pages becomes a `Window` of the
ordered rows: so many to skip, so many to take.
-/

namespace ReadThrough

/-- Bounds and defaults for the size of a page. -/
structure Limits where
  maxPageSize : UInt32 := 200
  defaultPageSize : UInt32 := 20
  defaultFirst : UInt32 := 10
  maxFirst : UInt32 := 20
  deriving DecidableEq, Repr, Inhabited

/-- A stretch of an ordered list of rows. -/
structure Window where
  skip : UInt64
  take : UInt64
  deriving DecidableEq, Repr, Inhabited

/-- A number brought between one and a bound; a bound of zero counts as one. -/
def clampSize (n bound : UInt32) : UInt32 := max 1 (min n (max 1 bound))

namespace Limits

/-- The rows on one page. -/
def pageSize (limits : Limits) (size : Option UInt32) : UInt32 :=
  clampSize (size.getD limits.defaultPageSize) limits.maxPageSize

/-- The number of rows after a cursor. -/
def first (limits : Limits) (first : Option UInt32) : UInt32 :=
  clampSize (first.getD limits.defaultFirst) limits.maxFirst

/-- The number of rows in a random sample. -/
def sample (limits : Limits) (n : UInt32) : UInt32 := min n (max 1 limits.maxPageSize)

/-- The rows of a page; pages are counted from one, and there is no page zero. -/
def window (limits : Limits) (page : UInt32) (size : Option UInt32) :
    Except PagingError Window :=
  if page = 0 then .error (.invalidPage page)
  else
    let size := (limits.pageSize size).toUInt64
    .ok { skip := (page - 1).toUInt64 * size, take := size }

end Limits

end ReadThrough
