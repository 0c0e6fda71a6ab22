import ReadThrough.Cache.Config
import ReadThrough.Cache.Held
import ReadThrough.Invalidation.Coordinator
import ReadThrough.Loader.Basic
import ReadThrough.Query.Engine
/-!
# Nodes

A node is a process with a cache of its own, a loader for each segment, and perhaps a connection to the
bus on which nodes tell each other of their changes.
-/

namespace ReadThrough.Cluster

/-- A load for which a task waits. A task may wait for several loads at a time. -/
structure Ticket where
  task : Nat
  place : Nat
  deriving DecidableEq, Repr, Inhabited

/-- How a node is connected to the bus. -/
inductive Link where
  | unlinked
  | linked
  /-- Neither publishing nor subscribing works. -/
  | broken
  /-- Publishing does not work, and a subscriber hears what is written here and nothing else. -/
  | recorded (items : List (Except BusError String))

/-- An entity whose rows a node loads. -/
structure Registered (ρ : Type) where
  entity : Entity ρ
  loader : Loader ρ Ticket := {}

/-- A process. -/
structure Node (ρ : Type) where
  id : Uuid
  config : CacheConfig := {}
  limits : Limits := {}
  cache : RowCache ρ := { ttl := config.ttl }
  /-- The loaders by segment. -/
  loaders : Dict String (Registered ρ) := .empty
  link : Link := .unlinked
  resolver : Option (CategoryResolver ρ) := none

namespace Node

variable {ρ : Type}

/-- The node with a loader for an entity, in place of the one for its segment. -/
def register (n : Node ρ) (e : Entity ρ) : Node ρ :=
  { n with loaders := n.loaders.insert e.segment { entity := e } }

/-- The loader of an entity. The loader that another entity has for the same segment does not count. -/
def registered? (n : Node ρ) (kind : String) (segment : String) : Option (Registered ρ) :=
  (n.loaders.find? segment).filter (·.entity.kind = kind)

/-- The engine of an entity, if it has a loader. -/
def engine? (n : Node ρ) (e : Entity ρ) : Option (Engine ρ) :=
  (n.registered? e.kind e.segment).map fun r =>
    { entity := r.entity, limits := n.limits, resolver := n.resolver }

/-- Changes the loader of a segment. -/
def setLoader (n : Node ρ) (segment : String) (l : Loader ρ Ticket) : Node ρ :=
  { n with loaders := n.loaders.modify segment fun r => { r with loader := l } }

/-- Whether there is a connection to a bus, however bad. -/
def hasBus (n : Node ρ) : Bool :=
  match n.link with
  | .unlinked => false
  | _ => true

end Node

end ReadThrough.Cluster
