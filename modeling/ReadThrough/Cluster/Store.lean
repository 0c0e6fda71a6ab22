import ReadThrough.Store.Table
/-!
# Shared stores

The nodes of a cluster read the same tables. A shared store can be told to misbehave: to fail, to take
its time, to break down, or to deliver rows that nobody expects.
-/

namespace ReadThrough.Cluster

/-- How a store misbehaves. -/
structure Faults where
  /-- What is reported instead of an answer. -/
  fail : Option StoreError := none
  /-- Whether queries fail as well, and not only the fetching of rows by key. -/
  failQueries : Bool := false
  /-- How many milliseconds it takes to deliver rows. -/
  delay : Nat := 0
  /-- Whether fetching rows by key breaks the fetching task. -/
  crash : Bool := false
  /-- Whether rows fetched by key come in reverse order. -/
  reverse : Bool := false
  /-- Whether the row with the smallest key is delivered on top of the rows asked for. -/
  extra : Bool := false
  deriving DecidableEq, Repr, Inhabited

/-- What fails a query. -/
def Faults.failure (f : Faults) : Option StoreError := if f.failQueries then f.fail else none

/-- A call of a store. -/
inductive StoreCall where
  | findByIds (keys : List Key)
  | count (f : Filter)
  | findMany (o : FindOptions)
  | findKeys (o : FindOptions)
  deriving DecidableEq, Repr

/-- A table that all nodes read. The observers of its changes are nodes, by number. -/
structure SharedStore (ρ : Type) where
  entity : Entity ρ
  table : Table ρ Nat := {}
  faults : Faults := {}

namespace SharedStore

variable {ρ : Type}

/-- The row with the smallest key. -/
def first? (s : SharedStore ρ) : Option ρ :=
  s.table.rows.values.foldl (fun least row => match least with
    | none => some row
    | some r => if compare (s.entity.key row) (s.entity.key r) = .lt then some row else some r) none

/-- The rows under the given keys, under the faults that the call began with. -/
def findByIds (s : SharedStore ρ) (faults : Faults) (keys : List Key) :
    Except StoreError (List ρ) :=
  match faults.fail with
  | some e => .error e
  | none =>
    let rows := s.table.findByIds keys
    let rows := if faults.reverse then rows.reverse else rows
    .ok (if faults.extra then rows ++ s.first?.toList else rows)

/-- An answer, unless queries fail. -/
def guard {α : Type} (s : SharedStore ρ) (answer : Except StoreError α) : Except StoreError α :=
  match s.faults.failure with
  | some e => .error e
  | none => answer

/-- The number of rows that pass a filter. -/
def count (s : SharedStore ρ) (f : Filter) : Except StoreError UInt64 :=
  s.guard (s.table.count s.entity f)

/-- The rows that the options ask for, as they are when the call begins. Whether the query fails shows
only when they are delivered. -/
def findMany (s : SharedStore ρ) (o : FindOptions) : Except StoreError (List ρ) :=
  s.table.findMany s.entity o

/-- The keys that the options ask for. -/
def findKeys (s : SharedStore ρ) (o : FindOptions) : Except StoreError (List Key) :=
  s.guard (s.table.findKeys s.entity o)

end SharedStore

end ReadThrough.Cluster
