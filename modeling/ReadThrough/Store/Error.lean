import ReadThrough.Key
/-!
# What can go wrong in a store
-/

namespace ReadThrough

/-- What a store does not accept. -/
inductive InputFault where
  | unknownColumn (segment column : String)
  | unknownRelation (segment relation : String)
  /-- The relation is declared but the store cannot follow it. -/
  | unmappedRelation (segment relation : String)
  | duplicateKey (segment : String) (key : Key)
  /-- The store's own words. -/
  | reported (text : String)
  deriving DecidableEq, Repr, Inhabited

/-- The text of a fault. -/
def InputFault.message : InputFault → String
  | .unknownColumn segment column => s!"unknown column `{column}` for `{segment}`"
  | .unknownRelation segment relation => s!"unknown relation `{relation}` for `{segment}`"
  | .unmappedRelation segment relation =>
    s!"relation `{relation}` has no SQL mapping for `{segment}`"
  | .duplicateKey segment key => s!"`{segment}` with key {key.display} already exists"
  | .reported text => text

/-- Why a store call failed. -/
inductive StoreError where
  | persistence (detail : String)
  | invalidInput (fault : InputFault)
  | notFound
  | timeout
  /-- The batch that carried a load ended without an answer. -/
  | aborted
  deriving DecidableEq, Repr, Inhabited

/-- The text of an error. -/
def StoreError.message : StoreError → String
  | .persistence detail => s!"persistence error: {detail}"
  | .invalidInput fault => s!"invalid input: {fault.message}"
  | .notFound => "resource not found"
  | .timeout => "database timeout"
  | .aborted => "batch dispatch aborted before completion"

end ReadThrough
