import ReadThrough.Cluster.Run
/-!
# Working with a cluster

What one can do with a cluster from outside: start calls and wait for them, change rows, look at the
caches and write to them, and send messages between nodes.
-/

namespace ReadThrough.Cluster

variable {ρ : Type}

/-! ## Calls -/

/-- What a caller wants. -/
inductive Wish where
  | load (k : Key)
  | loadMany (keys : List Key)
  /-- Several loads at a time, each with a result of its own. -/
  | join (keys : List Key)
  /-- The answer to a request, if it could be read. -/
  | resolve (r : Except QueryError Request)

/-- The plan of a caller in a node. Where the entity has no loader, nothing else matters. -/
def Wish.plan (w : Wish) (n : Node ρ) (e : Entity ρ) : Plan ρ (Outcome ρ) :=
  match n.engine? e, w with
  | none, _ => .done .noLoader
  | some _, .load k => .ask (.load [k]) fun answers => .done (.row (answers.headD (.error .aborted)))
  | some _, .loadMany keys => .ask (.load keys) fun answers => .done (.rows (Query.collect answers))
  | some _, .join keys => .ask (.load keys) fun answers => .done (.each answers)
  | some _, .resolve (.error error) => .done (.resolution (.error error))
  | some g, .resolve (.ok r) => do return .resolution (← (g.resolve r).run)

/-- Starts a call in a node. Its number comes with the cluster. -/
def start (c : Cluster ρ) (node : Nat) (e : Entity ρ) (w : Wish) : Nat × Cluster ρ :=
  let plan := match c.nodes[node]? with
    | some n => w.plan n e
    | none => .done .noLoader
  (c.nextTask, c.spawn node (.call e (.plan plan)))

/-- Whether a call has come to an end. -/
def isDone (c : Cluster ρ) (id : Nat) : Bool := !c.tasks.contains id

/-! ## Rows -/

/-- Changes a table and lets the nodes that observe it know: each invalidates and announces. -/
def commit (c : Cluster ρ) (s : SharedStore ρ) (table : Table ρ Nat) (notices : List (Notice Nat)) :
    Cluster ρ :=
  notices.foldl (fun c notice =>
    c.announce notice.observer notice.change.action notice.segment (some notice.key) true)
    (c.setStore { s with table })

/-- Adds a row to a store. -/
def insertRow (c : Cluster ρ) (kind : String) (row : ρ) : Except StoreError Unit × Cluster ρ :=
  match c.stores.find? kind with
  | none => (.error .notFound, c)
  | some s => match s.table.insert s.entity row with
    | .ok (table, notices) => (.ok (), c.commit s table notices)
    | .error e => (.error e, c)

/-- Puts a row in place of another. -/
def updateRow (c : Cluster ρ) (kind : String) (row : ρ) : Except StoreError Unit × Cluster ρ :=
  match c.stores.find? kind with
  | none => (.error .notFound, c)
  | some s => match s.table.update s.entity row with
    | .ok (table, notices) => (.ok (), c.commit s table notices)
    | .error e => (.error e, c)

/-- Takes a row away. -/
def removeRow (c : Cluster ρ) (kind : String) (k : Key) : Option ρ × Cluster ρ :=
  match c.stores.find? kind with
  | none => (none, c)
  | some s =>
    let (removed, table, notices) := s.table.remove s.entity k
    (removed, c.commit s table notices)

/-- Tells a store how to misbehave. -/
def setFaults (c : Cluster ρ) (kind : String) (faults : Faults) : Cluster ρ :=
  { c with stores := c.stores.modify kind fun s => { s with faults } }

/-- A node observes a store from now on. -/
def observe (c : Cluster ρ) (node : Nat) (kind : String) : Cluster ρ :=
  { c with stores := c.stores.modify kind fun s => { s with table := s.table.attach node } }

/-! ## Caches -/

/-- Changes the cache of a node and says what came of it. -/
def withCache {α : Type} (c : Cluster ρ) (node : Nat) (f : Node ρ → α × RowCache ρ) :
    Option α × Cluster ρ :=
  match c.nodes[node]? with
  | none => (none, c)
  | some n =>
    let (a, cache) := f n
    (some a, c.setCache node cache)

/-- Puts a row into the cache of a node, if the cache is on. -/
def primeRow (c : Cluster ρ) (node : Nat) (e : Entity ρ) (row : ρ) : Cluster ρ :=
  (c.withCache node fun n =>
    ((), if n.config.enabled then n.cache.keep c.clock e (e.key row) (some row) else n.cache)).2

/-- Puts a row into the cache of a node, if the cache is on and there has been no invalidation since the
epoch; and says whether it did. -/
def primeRowIfCurrent (c : Cluster ρ) (node : Nat) (e : Entity ρ) (row : ρ) (epoch : Epoch) :
    Bool × Cluster ρ :=
  let (done, c) := c.withCache node fun n =>
    if n.config.enabled then n.cache.keepIfCurrent c.clock e (e.key row) (some row) epoch
    else (false, n.cache)
  (done.getD false, c)

/-- What the cache of a node knows of a row. -/
def peek (c : Cluster ρ) (node : Nat) (e : Entity ρ) (k : Key) : Option (Option ρ) × Cluster ρ :=
  let (known, c) := c.withCache node fun n => n.cache.look c.clock e k
  (known.join, c)

/-- Purges the cache of a node and tells how many entries went. -/
def purgeNow (c : Cluster ρ) (node : Nat) : Nat × Cluster ρ :=
  let (count, c) := c.withCache node fun n => (n.cache.purgeCount c.clock, n.cache.purge c.clock)
  (count.getD 0, c)

/-! ## The journal -/

/-- What has happened since the journal was last read, with what the outside observer of the bus has
heard meanwhile. -/
def readJournal (c : Cluster ρ) : Journal × List (Except BusError String) × Cluster ρ :=
  (c.journal, c.bus.rest c.observed, { c with journal := {}, observed := c.bus.published })

end ReadThrough.Cluster
