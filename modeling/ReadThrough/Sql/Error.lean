import ReadThrough.Store.Error
/-!
# What can go wrong with a database

A database client fails in its own ways. As a store error, a missing row is `notFound`, a full pool is
`timeout`, and what the server says decides the rest.
-/

namespace ReadThrough

/-- Why a database call failed. -/
inductive SqlError where
  | rowNotFound
  | poolTimedOut
  | poolClosed
  /-- The server answered in a way that cannot be understood. -/
  | protocol (detail : String)
  /-- What the server said. -/
  | database (text : String)
  /-- The address of the server is unusable. -/
  | address (detail : String)
  deriving DecidableEq, Repr, Inhabited

namespace SqlError

/-- The text of an error. -/
def message : SqlError → String
  | .rowNotFound =>
    "no rows returned by a query that expected to return at least one row"
  | .poolTimedOut => "pool timed out while waiting for an open connection"
  | .poolClosed => "attempted to acquire a connection on a closed pool"
  | .protocol detail => s!"encountered unexpected or invalid data: {detail}"
  | .database text => s!"error returned from database: {text}"
  | .address detail => detail

/-- Whether a part stands somewhere in a list of characters. -/
def occurs (part : List Char) : List Char → Bool
  | [] => part.isEmpty
  | c :: cs => part.isPrefixOf (c :: cs) || occurs part cs

/-- Whether a text mentions a part. -/
def mentions (text part : String) : Bool := occurs part.toList text.toList

/-- The error of the store that the database serves. -/
def toStoreError : SqlError → StoreError
  | .rowNotFound => .notFound
  | .poolTimedOut => .timeout
  | .database text =>
    if mentions text "invalid input syntax" || mentions text "does not exist" then
      .invalidInput (.reported text)
    else if mentions text "canceling statement due to statement timeout" ||
        mentions text "canceling statement due to user request" then .timeout
    else .persistence (SqlError.database text).message
  | e => .persistence e.message

end SqlError

end ReadThrough
