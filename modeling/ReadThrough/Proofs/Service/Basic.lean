import ReadThrough.Cache.Config
import ReadThrough.Cache.Held
import ReadThrough.Clock
import ReadThrough.Proofs.Cache.History
import ReadThrough.Proofs.Loader.Numbering
/-!
# Services

A service is what one process has for one entity: a loader, the cache that the loader fills, and a clock.
It takes one step at a time, and any step that is possible may come next: a load begins or joins a batch,
a caller goes away, a delay begins or ends, a batch is fetched step by step, whole rows that were found in
another way are put into the cache, somebody else does something to the cache, or time goes by. So the
runs of a service are all the ways in which these things may be interleaved.

The service has no store. What a store says is part of the step that hears it.
-/

namespace ReadThrough

/-- The delay of a batch, and until when it lasts once it has begun. -/
structure Service.Delay where
  generation : Nat
  due : Option Nat := none
  deriving DecidableEq, Repr

/-- Whole rows on their way into the cache: the epoch before the store was asked and, when the store has
answered, the rows that are still to be put into the cache. -/
structure Service.Page (ρ : Type) where
  epoch : Epoch
  rows : Option (List ρ) := none

/-- What one process has for one entity. Loads and pages are numbered as they begin. -/
structure Service (ρ : Type) where
  /-- Milliseconds since the start. -/
  clock : Nat := 0
  cache : RowCache ρ
  loader : Loader ρ Nat := {}
  /-- The number of the next load. -/
  loads : Nat := 0
  /-- Loads of which the cache knows nothing and which have not joined a batch yet. -/
  missed : Dict Nat Key := .empty
  /-- Loads whose callers have gone away. -/
  dropped : List Nat := []
  /-- The delays that have not ended, in the order in which their batches were opened. -/
  delays : List Service.Delay := []
  pages : Dict Nat (Service.Page ρ) := .empty
  /-- The number of the next page. -/
  pageCount : Nat := 0

namespace Service

variable {ρ : Type}

/-- How a service is set up. -/
structure Setup (ρ : Type) where
  entity : Entity ρ
  config : CacheConfig := {}

/-- What a service may do next. -/
inductive Event (ρ : Type) where
  /-- A load begins: it looks into the cache. -/
  | begin (k : Key)
  /-- A load of which the cache knows nothing joins a batch. -/
  | join (l : Nat)
  /-- The caller of a load goes away. -/
  | drop (l : Nat)
  /-- The delay of a batch begins. -/
  | sleep (g : Nat)
  /-- The delay of a batch ends. -/
  | fire (g : Nat)
  /-- A closed batch takes note of the epoch, and the store is asked for its keys. -/
  | ask (g : Nat)
  /-- The store answers a batch. -/
  | settle (g : Nat) (answer : Except StoreError (List ρ))
  /-- One key of a batch is written to the cache. -/
  | write (g : Nat)
  /-- A batch answers its callers. -/
  | reply (g : Nat)
  /-- A page takes note of the epoch, and the store is asked for its rows. -/
  | note
  /-- The store delivers the rows of a page. -/
  | read (p : Nat) (rows : List ρ)
  /-- One row of a page is put into the cache. -/
  | prime (p : Nat)
  /-- A page is done, or given up. -/
  | close (p : Nat)
  /-- Somebody else does something to the cache. -/
  | touch (op : Cache.Op (Held ρ))
  /-- Time goes by. -/
  | pass (ms : Nat)

/-- Whether something puts a row of an entity, or its absence, into the cache. -/
def keeps (e : Entity ρ) : Cache.Op (Held ρ) → Bool
  | .set s _ v | .setIfCurrent s _ v _ => s = e.segment ∧ v.kind = e.kind
  | _ => false

namespace Setup

variable (u : Setup ρ) (s : Service ρ)

/-- A service at the start. -/
def fresh : Service ρ := { cache := { ttl := u.config.ttl } }

/-- What a load finds in the cache; with the cache off it does not look. -/
def look (k : Key) : Option (Option ρ) × RowCache ρ :=
  if u.config.enabled then s.cache.look s.clock u.entity k else (none, s.cache)

/-- The service after an event, if the event is possible. Others may do to the cache what they like, but
they do not put rows of the entity into it. -/
def step : Event ρ → Option (Service ρ)
  | .begin k =>
    let (known, cache) := u.look s k
    let missed := if known.isSome then s.missed else s.missed.insert s.loads k
    some { s with cache, missed, loads := s.loads + 1 }
  | .join l => (s.missed.find? l).map fun k =>
    let (joined, loader) := s.loader.join u.config.threshold k l
    let delay : List Delay :=
      if joined.opened then [{ generation := s.loader.current.generation }] else []
    { s with loader, missed := s.missed.erase l, delays := s.delays ++ delay }
  | .drop l =>
    if l < s.loads ∧ !s.missed.contains l then some { s with dropped := l :: s.dropped } else none
  | .sleep g =>
    if { generation := g } ∈ s.delays then
      let due := some (wakeTime s.clock u.config.batchDelay.toNat)
      some { s with delays := s.delays.map fun d =>
        if d = { generation := g } then { generation := g, due } else d }
    else none
  | .fire g =>
    if s.delays.any fun d => d.generation = g && d.due.any (· ≤ s.clock) then
      some { s with
        loader := (s.loader.elapse g).2
        delays := s.delays.filter (·.generation ≠ g) }
    else none
  | .ask g => match s.loader.flight? g with
    | some { stage := .closed, .. } =>
      some { s with loader := (s.loader.start g (s.cache.epoch u.entity.segment)).2 }
    | _ => none
  | .settle g answer => match s.loader.flight? g with
    | some { stage := .asked _, .. } =>
      some { s with loader := s.loader.settle g u.entity.key u.config.enabled answer }
    | _ => none
  | .write g => (s.loader.write? g).map fun (k, row, epoch, loader) =>
    { s with loader, cache := (s.cache.keepIfCurrent s.clock u.entity k row epoch).2 }
  | .reply g =>
    if (s.loader.flight? g).any Flight.ended then
      some { s with loader := (s.loader.reply g).2 }
    else none
  | .note =>
    let page : Page ρ := { epoch := s.cache.epoch u.entity.segment }
    some { s with pages := s.pages.insert s.pageCount page, pageCount := s.pageCount + 1 }
  | .read p rows => match s.pages.find? p with
    | some { epoch, rows := none } => some { s with pages := s.pages.insert p { epoch, rows } }
    | _ => none
  | .prime p => match s.pages.find? p with
    | some { epoch, rows := some (row :: rows) } =>
      let cache := if u.config.enabled then
          (s.cache.keepIfCurrent s.clock u.entity (u.entity.key row) (some row) epoch).2
        else s.cache
      some { s with cache, pages := s.pages.insert p { epoch, rows } }
    | _ => none
  | .close p => some { s with pages := s.pages.erase p }
  | .touch op =>
    if keeps u.entity op then none else some { s with cache := op.apply s.clock s.cache }
  | .pass ms => some { s with clock := s.clock + ms }

/-- Who is told what by an event: loads by their numbers, but for those whose callers have gone. -/
def answers : Event ρ → List (Nat × Loaded ρ)
  | .begin k => match (u.look s k).1 with
    | some row => [(s.loads, .ok row)]
    | none => []
  | .reply g => (s.loader.reply g).1.filter (·.1 ∉ s.dropped)
  | _ => []

/-- What an event does to the cache. -/
def op? : Event ρ → Option (Cache.Op (Held ρ))
  | .begin k => if u.config.enabled then some (.get u.entity.segment k) else none
  | .write g => (s.loader.write? g).map fun (k, row, epoch, _) =>
    .setIfCurrent u.entity.segment k { kind := u.entity.kind, row } epoch
  | .prime p => match s.pages.find? p with
    | some { epoch, rows := some (row :: _) } =>
      if u.config.enabled then
        some (.setIfCurrent u.entity.segment (u.entity.key row)
          { kind := u.entity.kind, row := some row } epoch)
      else none
    | _ => none
  | .touch op => some op
  | _ => none

end Setup

end Service

end ReadThrough
