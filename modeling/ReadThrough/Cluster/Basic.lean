import ReadThrough.Clock
import ReadThrough.Cluster.Node
import ReadThrough.Cluster.Store
import ReadThrough.Metrics
/-!
# Clusters

Nodes that share stores and a bus, in virtual time. What goes on in the nodes goes on in tasks. One task
runs at a time, until it has to wait; the tasks that can run take turns in the order in which they became
ready. Time stands still while a task can run.
-/

namespace ReadThrough.Cluster

/-- What comes of a task that somebody waits for. -/
inductive Outcome (ρ : Type) where
  | row (r : Loaded ρ)
  | rows (r : Except StoreError (List ρ))
  | each (l : List (Loaded ρ))
  | resolution (r : Except QueryError (Resolution ρ))
  /-- The entity has no loader. -/
  | noLoader

/-- How far a caller has come. -/
inductive Caller (ρ : Type) where
  | plan (p : Plan ρ (Outcome ρ))
  /-- Some loads have been answered; the caller goes on when all have been. -/
  | loading (answers : List (Option (Loaded ρ))) (next : List (Loaded ρ) → Plan ρ (Outcome ρ))
  /-- The store has read rows and takes its time to deliver them. -/
  | reading (due : Nat) (rows : Except StoreError (List ρ))
      (next : Except StoreError (List ρ) → Plan ρ (Outcome ρ))

/-- Something that goes on in a node. -/
inductive Task (ρ : Type) where
  /-- The delay of a batch; it begins when the task first runs. -/
  | delay (segment : String) (generation : Nat) (due : Option Nat)
  /-- A closed batch that is about to be fetched. -/
  | depart (segment : String) (generation : Nat)
  /-- A batch that is being fetched, since when, until when the store takes, and how long it may take. -/
  | fetch (segment : String) (generation : Nat) (keys : List Key) (faults : Faults)
      (since ready : Nat) (deadline : Option Nat)
  | call (entity : Entity ρ) (caller : Caller ρ)
  | publish (segment payload : String)
  /-- A subscriber of the bus, at a position. -/
  | listen (position : Nat)
  /-- A subscriber of a recording. -/
  | recite (items : List (Except BusError String))
  /-- Purging the cache time and again. -/
  | purge (every : Nat) (due : Option Nat)

/-- A moment at which a task goes on. -/
structure Timer where
  due : Nat
  task : Nat
  deriving DecidableEq, Repr

/-- A measurement. -/
structure Sample where
  metric : Metric
  segment : String
  amount : Nat := 1
  deriving DecidableEq, Repr

/-- What has happened lately. -/
structure Journal where
  /-- The calls of the stores, with the segment of the store. -/
  calls : List (String × StoreCall) := []
  samples : List Sample := []

/-- How many keys each batch asked for. -/
def Journal.batchSizes (j : Journal) : List Nat :=
  (j.samples.filter (·.metric = .batchSize)).map (·.amount)

/-- How often each metric was counted or sampled, by segment; the sizes of batches apart. -/
def Journal.counts (j : Journal) : List (Metric × String × Nat) :=
  let seen := (j.samples.filter (·.metric ≠ .batchSize)).map fun s => (s.metric, s.segment)
  (distinct seen).map fun m => (m.1, m.2, seen.count m)

end Cluster

/-- Nodes, what they share, and what goes on in them. -/
structure Cluster (ρ : Type) where
  /-- Milliseconds since the start. -/
  clock : Nat := 0
  nodes : List (Cluster.Node ρ)
  /-- The stores by the kind of their rows. -/
  stores : Dict String (Cluster.SharedStore ρ) := .empty
  bus : Bus := .standard
  /-- How much of the bus the outside observer has heard. -/
  observed : Nat := 0
  random : RandomSource
  /-- Tasks with the node in which they go on, the oldest first. -/
  tasks : Dict Nat (Nat × Cluster.Task ρ) := .empty
  /-- The number of the next task. -/
  nextTask : Nat := 0
  /-- The tasks that can run, each once. -/
  ready : List Nat := []
  /-- In order of registration. -/
  timers : List Cluster.Timer := []
  results : Dict Nat (Cluster.Outcome ρ) := .empty
  journal : Cluster.Journal := {}

namespace Cluster

variable {ρ : Type}

/-! ## Tasks -/

/-- A task becomes ready, unless it is ready or gone. -/
def wake (c : Cluster ρ) (id : Nat) : Cluster ρ :=
  if c.tasks.contains id ∧ id ∉ c.ready then { c with ready := c.ready ++ [id] } else c

/-- Starts a task in a node; it is ready. -/
def spawn (c : Cluster ρ) (node : Nat) (t : Task ρ) : Cluster ρ :=
  { c with
    tasks := c.tasks.insert c.nextTask (node, t)
    nextTask := c.nextTask + 1
    ready := c.ready ++ [c.nextTask] }

/-- A task goes on as another. -/
def become (c : Cluster ρ) (id : Nat) (t : Task ρ) : Cluster ρ :=
  { c with tasks := c.tasks.modify id fun p => (p.1, t) }

/-- Ends a task. -/
def stop (c : Cluster ρ) (id : Nat) : Cluster ρ :=
  { c with
    tasks := c.tasks.erase id
    ready := c.ready.filter (· ≠ id)
    timers := c.timers.filter (·.task ≠ id) }

/-- Ends a task with an outcome. -/
def finish (c : Cluster ρ) (id : Nat) (o : Outcome ρ) : Cluster ρ :=
  { c.stop id with results := c.results.insert id o }

/-- The moment at which a sleep ends that begins now. -/
def after (c : Cluster ρ) (ms : Nat) : Nat := wakeTime c.clock ms

/-- A task goes on at a moment. -/
def sleepUntil (c : Cluster ρ) (id due : Nat) : Cluster ρ :=
  { c with timers := c.timers ++ [{ due, task := id }] }

/-! ## Nodes and stores -/

/-- Changes a node. -/
def modifyNode (c : Cluster ρ) (node : Nat) (f : Node ρ → Node ρ) : Cluster ρ :=
  { c with nodes := c.nodes.modify node f }

/-- Replaces the cache of a node. -/
def setCache (c : Cluster ρ) (node : Nat) (cache : RowCache ρ) : Cluster ρ :=
  c.modifyNode node fun n => { n with cache }

/-- Replaces the loader of a segment in a node. -/
def setLoader (c : Cluster ρ) (node : Nat) (segment : String) (l : Loader ρ Ticket) : Cluster ρ :=
  c.modifyNode node (·.setLoader segment l)

/-- Replaces a store. -/
def setStore (c : Cluster ρ) (s : SharedStore ρ) : Cluster ρ :=
  { c with stores := c.stores.modify s.entity.kind fun _ => s }

/-! ## The journal -/

/-- Records a measurement. -/
def record (c : Cluster ρ) (s : Sample) : Cluster ρ :=
  { c with journal := { c.journal with samples := c.journal.samples ++ [s] } }

/-- Records a call of a store. -/
def recordCall (c : Cluster ρ) (e : Entity ρ) (call : StoreCall) : Cluster ρ :=
  { c with journal := { c.journal with calls := c.journal.calls ++ [(e.segment, call)] } }

end Cluster

end ReadThrough
