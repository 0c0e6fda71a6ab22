import ReadThrough.Cluster.Load
/-!
# Calls in a cluster

A caller carries out a plan in a node. It goes on as far as it is answered at once, and waits where it
is not.
-/

namespace ReadThrough.Cluster

variable {ρ : Type}

/-- Asks the store of a kind of rows; a store that does not exist has nothing to say. -/
def askStore {α : Type} (c : Cluster ρ) (kind : String) (call : StoreCall)
    (answer : SharedStore ρ → Except StoreError α) : Except StoreError α × Cluster ρ :=
  match c.stores.find? kind with
  | some s => (answer s, c.recordCall s.entity call)
  | none => (.error .notFound, c)

/-- What becomes of the rows of a kind that a query has read: they are delivered, unless queries fail by
then. -/
def delivered {α : Type} (c : Cluster ρ) (kind : String) (rows : Except StoreError α) :
    Except StoreError α :=
  match c.stores.find? kind with
  | some s => s.guard rows
  | none => rows

/-- Puts rows into the cache of a node, unless there has been an invalidation since the epoch. -/
def prime (c : Cluster ρ) (node : Nat) (e : Entity ρ) (rows : List ρ) (epoch : Epoch) : Cluster ρ :=
  c.modifyNode node fun n =>
    if n.config.enabled then { n with cache := n.cache.keepAllIfCurrent c.clock e rows epoch } else n

/-- Carries a plan out in a node until it has to wait or is done. -/
def carryOut (id node : Nat) (e : Entity ρ) : Plan ρ (Outcome ρ) → Cluster ρ → Cluster ρ
  | .done o, c => c.finish id o
  | .ask (.count f) next, c =>
    let (r, c) := c.askStore e.kind (.count f) (·.count f)
    carryOut id node e (next r) c
  | .ask (.findKeys kind o) next, c =>
    let (r, c) := c.askStore kind (.findKeys o) (·.findKeys o)
    carryOut id node e (next r) c
  | .ask (.findMany o) next, c =>
    let delay := ((c.stores.find? e.kind).map (·.faults.delay)).getD 0
    let (rows, c) := c.askStore e.kind (.findMany o) (·.findMany o)
    if delay = 0 then carryOut id node e (next (c.delivered e.kind rows)) c
    else
      let due := c.after delay
      (c.become id (.call e (.reading due rows next))).sleepUntil id due
  | .ask (.load keys) next, c =>
    let (answers, c) := beginLoads node e id 0 keys c
    match answers.mapM fun a => a with
    | some answers => carryOut id node e (next answers) c
    | none => c.become id (.call e (.loading answers next))
  | .ask .unit next, c =>
    let (u, random) := c.random.unit
    carryOut id node e (next u) { c with random }
  | .ask (.shuffle keys) next, c =>
    let (keys, random) := c.random.shuffle keys
    carryOut id node e (next keys) { c with random }
  | .ask .epoch next, c =>
    let epoch := ((c.nodes[node]?).map (·.cache.epoch e.segment)).getD default
    carryOut id node e (next epoch) c
  | .ask (.prime rows epoch) next, c => carryOut id node e (next ()) (c.prime node e rows epoch)

/-- A caller goes on. -/
def goOnCalling (c : Cluster ρ) (id node : Nat) (e : Entity ρ) : Caller ρ → Cluster ρ
  | .plan p => carryOut id node e p c
  | .loading answers next =>
    match answers.mapM fun a => a with
    | some answers => carryOut id node e (next answers) c
    | none => c
  | .reading due rows next =>
    if due ≤ c.clock then carryOut id node e (next (c.delivered e.kind rows)) c else c

end ReadThrough.Cluster
