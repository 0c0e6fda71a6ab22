import ReadThrough.Paging.Error
import ReadThrough.Store.Error
/-!
# What can go wrong with a query

A query is malformed by its own fault, or it fails because the store failed.
-/

namespace ReadThrough

/-- What makes a request malformed. -/
inductive Malformation where
  /-- The request text cannot be read; the reason is given where the type of a value has one. -/
  | descriptor (reason : Option PagingError)
  | paging (error : PagingError)
  | idsWithRandom
  | noCategoryColumn (segment : String)
  | noCategoryResolver (segment : String)
  | unknownOrder (segment column : String)
  | other (detail : String)
  deriving DecidableEq, Repr

/-- The text of a malformation. The text for a request that cannot be read leaves two things out that a reader of
JSON adds: at its end the place where reading has stopped (` at line 1 column 20`), and, where no type of value
gives a reason, which form was found in place of which other; all faults of form have one text here. -/
def Malformation.message : Malformation → String
  | .descriptor reason =>
    "invalid request descriptor: " ++ (reason.map PagingError.message).getD "unexpected form"
  | .paging error => error.message
  | .idsWithRandom => "`ids` and `random` cannot be combined"
  | .noCategoryColumn segment => s!"`{segment}` cannot be filtered by category"
  | .noCategoryResolver segment => s!"no category resolver configured for `{segment}`"
  | .unknownOrder segment column => s!"cannot order `{segment}` by unknown column `{column}`"
  | .other detail => detail

/-- Why a query has no answer. -/
inductive QueryError where
  | malformed (reason : Malformation)
  | store (error : StoreError)
  deriving DecidableEq, Repr

namespace QueryError

/-- The text of an error; a store error speaks for itself. -/
def message : QueryError → String
  | .malformed reason => s!"malformed request: {reason.message}"
  | .store error => error.message

/-- Whether the request is at fault. -/
def isMalformed : QueryError → Bool
  | .malformed _ => true
  | .store _ => false

end QueryError

end ReadThrough
