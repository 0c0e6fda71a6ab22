import ReadThrough.Cluster.Basic
/-!
# Invalidation in a cluster

A change is applied to the cache of the node that has made it, and announced on the bus in a task of its
own. Nodes that listen apply what they hear.
-/

namespace ReadThrough.Cluster

variable {ρ : Type}

/-- How a node is connected to the bus. -/
def link (c : Cluster ρ) (node : Nat) : Link :=
  match c.nodes[node]? with
  | some n => n.link
  | none => .unlinked

/-- A payload goes onto the bus, and all who listen become ready. -/
def broadcast (c : Cluster ρ) (payload : String) : Cluster ρ :=
  let listeners := c.tasks.entries.filterMap fun (id, _, t) => match t with
    | .listen _ => some id
    | _ => none
  listeners.foldl wake { c with bus := c.bus.publish payload }

/-- Publishes an announcement, if the connection is good. -/
def publish (c : Cluster ρ) (node : Nat) (segment payload : String) : Cluster ρ :=
  match c.link node with
  | .linked => (c.broadcast payload).record { metric := .published, segment }
  | _ => c.record { metric := .publishFailed, segment }

/-- Invalidates in one node only. -/
def clearLocal (c : Cluster ρ) (node : Nat) (segment : String) (key : Option Key) : Cluster ρ :=
  c.modifyNode node fun n => { n with cache := n.cache.invalidate segment key }

/-- Invalidates everything in one node only. -/
def clearAllLocal (c : Cluster ρ) (node : Nat) : Cluster ρ :=
  c.modifyNode node fun n => { n with cache := n.cache.clearAll }

/-- Invalidates in a node and announces it to the others. Where no task can be started, the
announcement fails. -/
def announce (c : Cluster ρ) (node : Nat) (action : Action) (segment : String) (key : Option Key)
    (canSpawn : Bool) : Cluster ρ :=
  let c := c.clearLocal node segment key
  match c.nodes[node]? with
  | none => c
  | some n =>
    if !n.hasBus then c
    else if canSpawn then
      c.spawn node (.publish segment (announcement n.id action segment key).encode)
    else c.record { metric := .publishFailed, segment }

/-- A node hears something. -/
def hear (c : Cluster ρ) (node : Nat) (item : Except BusError String) :
    Option RemoteOutcome × Cluster ρ :=
  match c.nodes[node]? with
  | none => (none, c)
  | some n =>
    let (outcome, cache) := n.cache.hear n.id item
    let c := c.setCache node cache
    match outcome with
    | some (.applied m) => (outcome, c.record { metric := .received, segment := m.segment })
    | _ => (outcome, c)

/-- A node hears several things. -/
def hearAll (c : Cluster ρ) (node : Nat) (items : List (Except BusError String)) : Cluster ρ :=
  items.foldl (fun c item => (c.hear node item).2) c

/-- What comes of the wish to listen. -/
inductive Listening where
  | started
  | noBus
  | failed (e : BusError)
  deriving DecidableEq, Repr

/-- A node subscribes and listens from now on. -/
def listen (c : Cluster ρ) (node : Nat) : Listening × Cluster ρ :=
  match c.link node with
  | .linked => (.started, c.spawn node (.listen c.bus.published))
  | .recorded items => (.started, c.spawn node (.recite items))
  | .broken => (.failed (.transport "down"), c)
  | .unlinked => (.noBus, c)

/-- The number of subscribers of the bus, the outside observer included. -/
def subscribers (c : Cluster ρ) : Nat :=
  1 + (c.tasks.values.filter fun (_, t) => match t with
    | .listen _ => true
    | _ => false).length

end ReadThrough.Cluster
