import Mathlib.Logic.Function.Basic
import ReadThrough.Proofs.Invalidation.Bus
import ReadThrough.Proofs.Service.Basic
import ReadThrough.Proofs.Store.Table
/-!
# Fleets

A fleet is any number of processes that share a table and a bus. Each has a service of its own for the
rows of the table, and a clock of its own. A change to the table takes several steps: the row changes,
the observers of the table are told one by one, and the change returns. An observer invalidates its own
cache when it is told, and leaves an announcement to be published some time later. A process that
listens hears the announcements on the bus one by one.

In between anything may happen, so the runs of a fleet are all the ways in which the steps of its
processes may be interleaved.
-/

namespace ReadThrough

/-- Processes `ι` that share a table of rows `ρ`, and what goes on between them. -/
structure Fleet (ι ρ : Type) where
  table : Table ρ ι
  services : ι → Service ρ
  bus : Bus
  /-- How much of the bus each process has heard, if it listens. -/
  listeners : ι → Option Nat := fun _ => none
  /-- The changes that have not returned, with the notices of those who have not been told. -/
  changes : Dict Nat (List (Notice ι)) := .empty
  /-- The number of the next change. -/
  nextChange : Nat := 0
  /-- The payloads that have not been published. -/
  outbox : Dict Nat String := .empty
  /-- The number of the next payload. -/
  nextPost : Nat := 0

namespace Fleet

variable {ι ρ : Type}

/-- How a fleet is set up. Every process has a name of its own. -/
structure Setup (ι ρ : Type) where
  entity : Entity ρ
  rows : List ρ := []
  config : ι → CacheConfig := fun _ => {}
  id : ι → Uuid
  id_injective : ∀ A B, id A = id B → A = B
  /-- Whether a process is connected to the bus. -/
  linked : ι → Bool := fun _ => true
  capacity : Nat := 1024

/-- What may happen next in a fleet. -/
inductive Event (ι ρ : Type) where
  /-- A step of a process for which it does not need the table. -/
  | act (B : ι) (ev : Service.Event ρ)
  /-- The table is read for a batch of a process. -/
  | answer (B : ι) (g : Nat)
  /-- The time for a batch of a process is up. -/
  | expire (B : ι) (g : Nat)
  /-- The table is read for a page of a process. -/
  | deliver (B : ι) (p : Nat) (o : FindOptions)
  /-- A row of the table changes. Whoever observes the table is to be told. -/
  | change (observers : List ι) (w : Write ρ)
  /-- A change tells the next observer. -/
  | observe (c : Nat)
  /-- A change returns, when all observers have been told. -/
  | finish (c : Nat)
  /-- A payload is published. -/
  | publish (m : Nat)
  /-- A process begins to listen. -/
  | listen (B : ι)
  /-- A process that listens hears what is next. -/
  | hear (B : ι)

/-- Whether a process hears of the store. -/
def ofStore : Service.Event ρ → Bool
  | .settle _ _ | .read _ _ => true
  | _ => false

namespace Setup

variable [DecidableEq ι] (F : Setup ι ρ)

/-- How the service of a process is set up. -/
def service (B : ι) : Service.Setup ρ := { entity := F.entity, config := F.config B }

/-- The fleet at the start. -/
def fresh : Fleet ι ρ where
  table := .ofRows F.entity F.rows
  services B := (F.service B).fresh
  bus := .ofCapacity F.capacity

/-- The fleet after a step of one process. -/
def within (s : Fleet ι ρ) (B : ι) (ev : Service.Event ρ) : Option (Fleet ι ρ) :=
  ((F.service B).step (s.services B) ev).map fun t =>
    { s with services := Function.update s.services B t }

/-- The fleet after an event, if the event is possible. A change that is refused, or that finds nothing
to change, leaves everything as it is. -/
def step (s : Fleet ι ρ) : Event ι ρ → Option (Fleet ι ρ)
  | .act B ev => if ofStore ev then none else F.within s B ev
  | .answer B g => ((s.services B).loader.flight? g).bind fun f =>
    F.within s B (.settle g (.ok (s.table.findByIds f.batch.keys)))
  | .expire B g =>
    if (F.config B).fetchTimeout.isSome then F.within s B (.settle g (.error .timeout)) else none
  | .deliver B p o => (s.table.findMany F.entity o).toOption.bind fun rows =>
    F.within s B (.read p rows)
  | .change observers w =>
    match ({ s.table with observers } : Table ρ ι).write? F.entity w with
    | some (table, news) =>
      let changes := s.changes.insert s.nextChange news
      some { s with table, changes, nextChange := s.nextChange + 1 }
    | none => some s
  | .observe c => match s.changes.find? c with
    | some (notice :: news) =>
      let A := notice.observer
      let t := s.services A
      let cache := t.cache.invalidate notice.segment (some notice.key)
      let message :=
        announcement (F.id A) notice.change.action notice.segment (some notice.key)
      some { s with
        services := Function.update s.services A { t with cache }
        changes := s.changes.insert c news
        outbox := if F.linked A then s.outbox.insert s.nextPost message.encode else s.outbox
        nextPost := s.nextPost + 1 }
    | _ => none
  | .finish c =>
    if s.changes.find? c = some [] then some { s with changes := s.changes.erase c } else none
  | .publish m => (s.outbox.find? m).map fun payload =>
    { s with bus := s.bus.publish payload, outbox := s.outbox.erase m }
  | .listen B =>
    if F.linked B ∧ s.listeners B = none then
      some { s with listeners := Function.update s.listeners B (some s.bus.published) }
    else none
  | .hear B => ((s.listeners B).bind s.bus.receive).map fun (item, position) =>
    let t := s.services B
    let cache := (t.cache.hear (F.id B) item).2
    { s with
      services := Function.update s.services B { t with cache }
      listeners := Function.update s.listeners B (some position) }

/-- What an event of the fleet is to one of its processes. -/
def eventOf (s : Fleet ι ρ) (B : ι) : Event ι ρ → Service.Event ρ
  | .act C ev => if C = B then ev else .pass 0
  | .answer C g =>
    let keys := ((s.services C).loader.flight? g).elim [] (·.batch.keys)
    if C = B then .settle g (.ok (s.table.findByIds keys)) else .pass 0
  | .expire C g => if C = B then .settle g (.error .timeout) else .pass 0
  | .deliver C p o =>
    if C = B then .read p ((s.table.findMany F.entity o).toOption.getD []) else .pass 0
  | .observe c => match s.changes.find? c with
    | some (notice :: _) =>
      if notice.observer = B then .touch (.delete notice.segment notice.key) else .pass 0
    | _ => .pass 0
  | .hear C =>
    if C = B then
      let item := ((s.listeners C).bind s.bus.receive).map Prod.fst
      (item.bind (Cache.heard? (F.id C))).elim (.pass 0) .touch
    else .pass 0
  | .change _ _ | .finish _ | .publish _ | .listen _ => .pass 0

end Setup

end Fleet

end ReadThrough
