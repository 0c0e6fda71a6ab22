import ReadThrough.Cluster.Control
/-!
# Scripts for a cluster

A script is a list of steps. What is needed later in the script is remembered by name: calls that go on
in the background, and epochs. After every step the tasks of the cluster run until they have to wait.
-/

namespace ReadThrough.Cluster

/-- A step of a script. -/
inductive Step (ρ : Type) where
  /-- Makes a call and waits for it. -/
  | call (node : Nat) (e : Entity ρ) (w : Wish)
  | spawn (name : String) (node : Nat) (e : Entity ρ) (w : Wish)
  | await (name : String)
  | isDone (name : String)
  /-- The caller does not wait any longer. -/
  | drop (name : String)
  | prime (node : Nat) (e : Entity ρ) (row : ρ)
  | takeEpoch (node : Nat) (e : Entity ρ) (name : String)
  | primeIfCurrent (node : Nat) (e : Entity ρ) (row : ρ) (name : String)
  /-- Invalidates by way of the loader of an entity. -/
  | clear (node : Nat) (e : Entity ρ) (k : Option Key)
  | peek (node : Nat) (e : Entity ρ) (k : Key)
  | insert (kind : String) (row : ρ)
  | update (kind : String) (row : ρ)
  | remove (kind : String) (k : Key)
  | misbehave (kind : String) (faults : Faults)
  | announce (node : Nat) (action : Action) (segment : String) (k : Option Key) (canSpawn : Bool)
  | clearLocal (node : Nat) (segment : String) (k : Option Key)
  | clearAllLocal (node : Nat)
  | remote (node : Nat) (payload : String)
  | send (payloads : List String)
  | listen (node : Nat)
  | purge (node : Nat)
  | purgeEvery (node : Nat) (ms : Nat)
  | sleep (ms : Nat)
  /-- Only looks. -/
  | rest

/-- What comes of a step. -/
inductive Answer (ρ : Type) where
  | nothing
  | outcome (o : Outcome ρ)
  | cancelled
  | truth (b : Bool)
  /-- What a cache knows of a row. -/
  | known (row : Option (Option ρ))
  | changed (r : Except StoreError Unit)
  | removed (row : Option ρ)
  | heard (r : Option RemoteOutcome)
  | listening (l : Listening)
  | count (n : Nat)

/-- A cluster, and what the script has remembered. -/
structure Session (ρ : Type) where
  cluster : Cluster ρ
  epochs : Dict String Epoch := .empty
  /-- The calls in the background; one that has been dropped has no number. -/
  calls : Dict String (Option Nat) := .empty

namespace Session

variable {ρ : Type}

/-- The session with another cluster. -/
def set (s : Session ρ) (c : Cluster ρ) : Session ρ := { s with cluster := c }

/-- Whether a node has a loader for an entity. -/
def hasLoader (s : Session ρ) (node : Nat) (e : Entity ρ) : Bool :=
  ((s.cluster.nodes[node]?).bind (·.registered? e.kind e.segment)).isSome

/-- Waits for a call. -/
def await (s : Session ρ) (id : Nat) : Answer ρ × Session ρ :=
  let c := s.cluster.await id
  (match c.results.find? id with
    | some o => .outcome o
    | none => .nothing, s.set c)

/-- An answer that needs the loader of an entity. -/
def withLoader (s : Session ρ) (node : Nat) (e : Entity ρ) (r : Answer ρ × Session ρ) :
    Answer ρ × Session ρ :=
  if s.hasLoader node e then r else (.outcome .noLoader, s)

/-- Takes a step, before the tasks of the cluster run. -/
def take (s : Session ρ) : Step ρ → Answer ρ × Session ρ
  | .call node e w =>
    let (id, c) := s.cluster.start node e w
    (s.set c).await id
  | .spawn name node e w =>
    let (id, c) := s.cluster.start node e w
    (.nothing, { s with cluster := c, calls := s.calls.insert name (some id) })
  | .await name => match s.calls.find? name with
    | some (some id) => s.await id
    | _ => (.cancelled, s)
  | .isDone name => match s.calls.find? name with
    | some (some id) => (.truth (s.cluster.isDone id), s)
    | _ => (.truth true, s)
  | .drop name => match s.calls.find? name with
    | some (some id) =>
      if s.cluster.isDone id then (.nothing, s)
      else (.nothing,
        { s with cluster := s.cluster.stop id, calls := s.calls.insert name none })
    | _ => (.nothing, s)
  | .prime node e row => s.withLoader node e (.nothing, s.set (s.cluster.primeRow node e row))
  | .takeEpoch node e name =>
    let epoch := ((s.cluster.nodes[node]?).map (·.cache.epoch e.segment)).getD default
    s.withLoader node e (.nothing, { s with epochs := s.epochs.insert name epoch })
  | .primeIfCurrent node e row name =>
    let (done, c) := s.cluster.primeRowIfCurrent node e row ((s.epochs.find? name).getD default)
    s.withLoader node e (.truth done, s.set c)
  | .clear node e k => s.withLoader node e (.nothing, s.set (s.cluster.clearLocal node e.segment k))
  | .peek node e k =>
    let (known, c) := s.cluster.peek node e k
    (.known known, s.set c)
  | .insert kind row =>
    let (r, c) := s.cluster.insertRow kind row
    (.changed r, s.set c)
  | .update kind row =>
    let (r, c) := s.cluster.updateRow kind row
    (.changed r, s.set c)
  | .remove kind k =>
    let (row, c) := s.cluster.removeRow kind k
    (.removed row, s.set c)
  | .misbehave kind faults => (.nothing, s.set (s.cluster.setFaults kind faults))
  | .announce node action segment k canSpawn =>
    (.nothing, s.set (s.cluster.announce node action segment k canSpawn))
  | .clearLocal node segment k => (.nothing, s.set (s.cluster.clearLocal node segment k))
  | .clearAllLocal node => (.nothing, s.set (s.cluster.clearAllLocal node))
  | .remote node payload =>
    let (r, c) := s.cluster.hear node (.ok payload)
    (.heard r, s.set c)
  | .send payloads => (.nothing, s.set (payloads.foldl broadcast s.cluster))
  | .listen node =>
    let (r, c) := s.cluster.listen node
    (.listening r, s.set c)
  | .purge node =>
    let (n, c) := s.cluster.purgeNow node
    (.count n, s.set c)
  | .purgeEvery node ms => (.nothing, s.set (s.cluster.spawn node (.purge ms none)))
  | .sleep ms => (.nothing, s.set (s.cluster.sleep ms))
  | .rest => (.nothing, s)

/-- Takes a step and lets the tasks run: what came of it, and what happened meanwhile. -/
def step (s : Session ρ) (x : Step ρ) :
    Answer ρ × Journal × List (Except BusError String) × Session ρ :=
  let (answer, s) := s.take x
  let (journal, heard, c) := s.cluster.settle.readJournal
  (answer, journal, heard, s.set c)

end Session

end ReadThrough.Cluster
