import ReadThrough.Cluster.Basic
/-!
# Loading in a cluster

A load looks into the cache of its node and, if that knows nothing, joins a batch of the loader. A batch
that has been closed is fetched in a task of its own. When the store has answered, or has taken too
long, what is learned goes to the cache before it goes to those who wait.
-/

namespace ReadThrough.Cluster

variable {ρ : Type}

/-! ## Joining -/

/-- A load joins a batch, and what it brings about is set going: first the delay of a batch that it has
opened, then the fetch of a batch that it has filled. -/
def enqueue (c : Cluster ρ) (node : Nat) (n : Node ρ) (r : Registered ρ) (k : Key) (ticket : Ticket) :
    Cluster ρ :=
  let segment := r.entity.segment
  let generation := r.loader.current.generation
  let (joined, loader) := r.loader.join n.config.threshold k ticket
  let c := c.setLoader node segment loader
  let c := if joined.opened then c.spawn node (.delay segment generation none) else c
  if joined.filled then c.spawn node (.depart segment generation) else c

/-- Begins a load: it is answered from the cache, or it waits. -/
def beginLoad (c : Cluster ρ) (node : Nat) (e : Entity ρ) (k : Key) (ticket : Ticket) :
    Option (Loaded ρ) × Cluster ρ :=
  match c.nodes[node]? with
  | none => (some (.error .aborted), c)
  | some n => match n.registered? e.kind e.segment with
    | none => (some (.error .aborted), c)
    | some r =>
      if n.config.enabled then
        let (known, cache) := n.cache.look c.clock e k
        let c := c.setCache node cache
        match known with
        | some row => (some (.ok row), c.record { metric := .hits, segment := e.segment })
        | none =>
          (none, (c.record { metric := .misses, segment := e.segment }).enqueue node n r k ticket)
      else (none, c.enqueue node n r k ticket)

/-- Begins several loads of a task, from a place on. -/
def beginLoads (node : Nat) (e : Entity ρ) (task : Nat) :
    (place : Nat) → List Key → Cluster ρ → List (Option (Loaded ρ)) × Cluster ρ
  | _, [], c => ([], c)
  | place, k :: keys, c =>
    let (answer, c) := c.beginLoad node e k { task, place }
    let (answers, c) := beginLoads node e task (place + 1) keys c
    (answer :: answers, c)

/-! ## Answering -/

/-- Tells a task the answer to one of its loads. A task that is gone does not hear it. -/
def deliver (c : Cluster ρ) (answer : Ticket × Loaded ρ) : Cluster ρ :=
  let (ticket, r) := answer
  match c.tasks.find? ticket.task with
  | some (_, .call e (.loading answers next)) =>
    (c.become ticket.task (.call e (.loading (answers.set ticket.place (some r)) next))).wake
      ticket.task
  | _ => c

/-- Writes what a flight has learned to the cache, key by key. -/
def writeAll (c : Cluster ρ) (node : Nat) (segment : String) (generation : Nat) :
    (keys : Nat) → Cluster ρ
  | 0 => c
  | keys + 1 =>
    let step : Option (Cluster ρ) := do
      let n ← c.nodes[node]?
      let r ← n.loaders.find? segment
      let (k, row, epoch, loader) ← r.loader.write? generation
      let (_, cache) := n.cache.keepIfCurrent c.clock r.entity k row epoch
      return (c.setLoader node segment loader).setCache node cache
    match step with
    | some c => writeAll c node segment generation keys
    | none => c

/-- A flight has come to its end: its callers hear of it, and the task is done. -/
def land (c : Cluster ρ) (id node : Nat) (segment : String) (generation : Nat)
    (ending : Loader ρ Ticket → Nat → List (Ticket × Loaded ρ) × Loader ρ Ticket) : Cluster ρ :=
  match (c.nodes[node]?).bind (·.loaders.find? segment) with
  | none => c.stop id
  | some r =>
    let (replies, loader) := ending r.loader generation
    replies.foldl deliver ((c.setLoader node segment loader).stop id)

/-! ## Fetching -/

/-- Goes on with a fetch: the store has its answer, or the time is up, or neither. An answer that comes
at the very end of the time counts. -/
def goOnFetching (c : Cluster ρ) (id node : Nat) (segment : String) (generation : Nat)
    (keys : List Key) (faults : Faults) (since ready : Nat) (deadline : Option Nat) : Cluster ρ :=
  match c.nodes[node]? with
  | none => c.stop id
  | some n => match n.loaders.find? segment with
    | none => c.stop id
    | some r => match c.stores.find? r.entity.kind with
      | none => c.stop id
      | some s =>
        let answer : Option (Except StoreError (List ρ)) :=
          if ready ≤ c.clock then some (s.findByIds faults keys)
          else if deadline.any (· ≤ c.clock) then some (.error .timeout)
          else none
        match answer with
        | none => c
        | some answer =>
          let c := c.record { metric := .fetchTime, segment, amount := c.clock - since }
          let loader := r.loader.settle generation r.entity.key n.config.enabled answer
          let c := (c.setLoader node segment loader).writeAll node segment generation keys.length
          c.land id node segment generation Loader.reply

/-- Begins to fetch a closed batch. -/
def depart (c : Cluster ρ) (id node : Nat) (segment : String) (generation : Nat) : Cluster ρ :=
  match c.nodes[node]? with
  | none => c.stop id
  | some n => match n.loaders.find? segment with
    | none => c.stop id
    | some r =>
      let (keys, loader) := r.loader.start generation (n.cache.epoch segment)
      let c := c.setLoader node segment loader
      let c := c.record { metric := .batchSize, segment, amount := keys.length }
      let c := c.recordCall r.entity (.findByIds keys)
      let faults := ((c.stores.find? r.entity.kind).map (·.faults)).getD {}
      if faults.crash then c.land id node segment generation Loader.abandon
      else
        let ready := c.after faults.delay
        let deadline := n.config.fetchTimeout.map fun limit => c.after limit.toNat
        let c := c.become id (.fetch segment generation keys faults c.clock ready deadline)
        let c := if c.clock < ready then
            match deadline with
            | some limit => (c.sleepUntil id ready).sleepUntil id limit
            | none => c.sleepUntil id ready
          else c
        c.goOnFetching id node segment generation keys faults c.clock ready deadline

/-- The delay of a batch begins, goes on or ends. -/
def goOnDelaying (c : Cluster ρ) (id node : Nat) (segment : String) (generation : Nat)
    (due : Option Nat) : Cluster ρ :=
  match c.nodes[node]? with
  | none => c.stop id
  | some n =>
    let moment := due.getD (c.after n.config.batchDelay.toNat)
    if moment ≤ c.clock then
      match n.loaders.find? segment with
      | none => c.stop id
      | some r =>
        let (closed, loader) := r.loader.elapse generation
        let c := c.setLoader node segment loader
        if closed then c.depart id node segment generation else c.stop id
    else if due.isSome then c
    else (c.become id (.delay segment generation (some moment))).sleepUntil id moment

end ReadThrough.Cluster
