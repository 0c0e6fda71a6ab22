import ReadThrough.Sql.Error
import ReadThrough.Sql.Select
/-!
# Calls to a database

A call of a store either answers by itself or sends one statement and reads the answer from the reply.
-/

namespace ReadThrough.Sql

/-- What a database says: an answer, or why there is none. -/
abbrev Reply (β : Type) := Except SqlError β

/-- A store call over replies of type `β`. -/
inductive Call (β α : Type) where
  | done (result : Except StoreError α)
  | ask (s : Statement) (read : β → Except StoreError α)

namespace Call

variable {α β ρ : Type}

/-- What comes of a call when the database replies. -/
def result : Call β α → Reply β → Except StoreError α
  | .done r, _ => r
  | .ask _ read, .ok reply => read reply
  | .ask _ _, .error e => .error e.toStoreError

/-- The statements of a call. -/
def statements : Call β α → List Statement
  | .done _ => []
  | .ask s _ => [s]

/-- The rows under the given keys. -/
def findByIds (m : Mapping ρ) (keys : List Key) : Call (List ρ) (List ρ) :=
  if keys.isEmpty then .done (.ok []) else .ask (byKeysStatement m keys) .ok

/-- The number of rows that pass a filter. A count below zero is taken for zero. -/
def count (m : Mapping ρ) (f : Filter) : Call (List Int64) UInt64 :=
  match countStatement m f with
  | .error e => .done (.error e)
  | .ok s => .ask s fun
    | [] => .error SqlError.rowNotFound.toStoreError
    | n :: _ => .ok (if n < 0 then 0 else n.toUInt64)

/-- The rows that the options ask for. -/
def findMany (m : Mapping ρ) (o : FindOptions) : Call (List ρ) (List ρ) :=
  match Select.rows m o with
  | .error e => .done (.error e)
  | .ok q => .ask (q.statement m) .ok

/-- The keys of those rows. -/
def findKeys (m : Mapping ρ) (o : FindOptions) : Call (List Value) (List Key) :=
  match Select.keys m o with
  | .error e => .done (.error e)
  | .ok q => .ask (q.statement m) fun values => values.mapM fun v =>
    match m.keyKind.key? v with
    | some k => .ok k
    | none => .error (SqlError.protocol "key of another kind").toStoreError

end Call

/-! ## Being connected -/

/-- The statement that finds out whether a server answers. -/
def healthStatement : Statement := [.text "SELECT 1"]

/-- A server to try connections on: it is found under every address that mentions its place, and says
the same to every statement. -/
structure Server where
  place : String
  /-- What it says instead of answering. -/
  refusal : Option String := none
  /-- Whether the connections to it have been closed. -/
  closed : Bool := false
  deriving Repr

namespace Server

variable {α β : Type}

/-- What the server says when it has an answer. -/
def reply (s : Server) (answer : β) : Reply β :=
  if s.closed then .error .poolClosed
  else match s.refusal with
    | some text => .error (.database text)
    | none => .ok answer

/-- Runs a call: what comes of it, and the statements that have reached the server. -/
def run (s : Server) (answer : β) (c : Call β α) : Except StoreError α × List Statement :=
  (c.result (s.reply answer), if s.closed then [] else c.statements)

/-- Connects to an address. -/
def connect (s : Server) : Option String → Except SqlError Unit
  | none => .error (.address "database.url is not configured")
  | some url => if SqlError.mentions url s.place then .ok () else .error (.address "")

end Server

end ReadThrough.Sql
