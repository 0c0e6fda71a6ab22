import ReadThrough.Cluster.Control
import ReadThrough.Newsroom
/-!
# The newsroom's cluster

All tables of the newsroom, shared by a number of nodes. The nodes that observe them invalidate and
announce what changes; the table of teasers is not observed.
-/

namespace ReadThrough.Newsroom

open ReadThrough.Cluster

/-- The observed tables. -/
def observed : List (Entity Item) := [articles, categories, tags, drafts]

/-- A cluster of nodes on the newsroom's tables, some of which observe them. -/
def cluster (rows : Entity Item → List Item) (nodes : List (Node Item)) (observers : List Nat)
    (bus : Bus) (random : RandomSource) : ReadThrough.Cluster Item :=
  let store (e : Entity Item) : SharedStore Item := { entity := e, table := .ofRows e (rows e) }
  let c : ReadThrough.Cluster Item :=
    { nodes, bus, random, stores := .ofList (entities.map fun e => (e.kind, store e)) }
  observers.foldl (fun c node => observed.foldl (fun c e => c.observe node e.kind) c) c

end ReadThrough.Newsroom
