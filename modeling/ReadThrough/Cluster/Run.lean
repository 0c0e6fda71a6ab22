import ReadThrough.Cluster.Call
import ReadThrough.Cluster.Peers
/-!
# Running a cluster

The task that has been ready for longest runs until it has to wait. When none is ready, time may move on
to the next timer, and the tasks whose time has come become ready in the order in which they began to
wait.
-/

namespace ReadThrough.Cluster

variable {ρ : Type}

/-- A task runs until it has to wait or is done. -/
def runTask (c : Cluster ρ) (id : Nat) : Cluster ρ :=
  match c.tasks.find? id with
  | none => c
  | some (node, t) => match t with
    | .delay segment generation due => c.goOnDelaying id node segment generation due
    | .depart segment generation => c.depart id node segment generation
    | .fetch segment generation keys faults since ready deadline =>
      c.goOnFetching id node segment generation keys faults since ready deadline
    | .call e caller => c.goOnCalling id node e caller
    | .publish segment payload => (c.publish node segment payload).stop id
    | .listen position =>
      (c.hearAll node (c.bus.rest position)).become id (.listen c.bus.published)
    | .recite items => (c.hearAll node items).stop id
    | .purge every none =>
      if every = 0 then c.stop id
      else (c.become id (.purge every (some (c.after every)))).sleepUntil id (c.after every)
    | .purge every (some due) =>
      if due ≤ c.clock then
        let c := c.modifyNode node fun n => { n with cache := n.cache.purge c.clock }
        (c.become id (.purge every (some (c.after every)))).sleepUntil id (c.after every)
      else c

/-- How many turns a cluster is given. Every turn ends a task, or takes it to a moment or a message that
it has not come to before, so a cluster that is driven by a short script never needs so many. -/
def turns : Nat := 10000000

/-- Runs the tasks that are ready, and those that become ready meanwhile. -/
def settleFor : (turns : Nat) → Cluster ρ → Cluster ρ
  | 0, c => c
  | turns + 1, c => match c.ready with
    | [] => c
    | id :: ready => settleFor turns (runTask { c with ready } id)

/-- Runs all tasks until they have to wait. -/
def settle (c : Cluster ρ) : Cluster ρ := settleFor turns c

/-- The moment of the next timer. -/
def nextDue? (c : Cluster ρ) : Option Nat := (c.timers.map (·.due)).min?

/-- Moves on to a moment and wakes the tasks that wait for it. -/
def moveTo (c : Cluster ρ) (moment : Nat) : Cluster ρ :=
  let due := c.timers.filter (·.due ≤ moment)
  (due.map (·.task)).foldl wake
    { c with clock := moment, timers := c.timers.filter (moment < ·.due) }

/-- Runs until a condition holds, moving on to the next timer whenever all tasks wait. -/
def runUntil (stop : Cluster ρ → Bool) : (turns : Nat) → Cluster ρ → Cluster ρ
  | 0, c => c
  | turns + 1, c =>
    let c := c.settle
    if stop c then c
    else match c.nextDue? with
      | some due => runUntil stop turns (c.moveTo due)
      | none => c

/-- Runs until a task is done. -/
def await (c : Cluster ρ) (id : Nat) : Cluster ρ :=
  runUntil (fun c => !c.tasks.contains id) turns c

/-- Lets time go by. -/
def sleep (c : Cluster ρ) (ms : Nat) : Cluster ρ :=
  let moment := c.after ms
  let c := runUntil (fun c => c.nextDue?.all (moment < ·)) turns c
  settle { c with clock := moment }

end ReadThrough.Cluster
