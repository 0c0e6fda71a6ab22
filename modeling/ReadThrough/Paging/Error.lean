/-!
# What can be wrong with a page
-/

namespace ReadThrough

/-- Why a page cannot be served. -/
inductive PagingError where
  /-- A cursor is not the name of a key; `detail` says where reading it failed. -/
  | invalidCursor (detail : String)
  /-- Pages are counted from one. -/
  | invalidPage (page : UInt32)
  /-- A page is given by number and by cursor at once. -/
  | mixed
  deriving DecidableEq, Repr

/-- The text of an error. -/
def PagingError.message : PagingError → String
  | .invalidCursor detail => s!"invalid cursor: {detail}"
  | .invalidPage page => s!"page must be at least 1, got {page}"
  | .mixed =>
    "offset fields (page, size) and cursor fields (after, first) cannot be combined"

end ReadThrough
