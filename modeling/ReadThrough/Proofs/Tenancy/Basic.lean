import Mathlib.Logic.Function.Basic
import ReadThrough.Proofs.Service.Basic
/-!
# Tenancies

A tenancy is one process with one cache and services for entities of different kinds, all of which keep
their rows in the same segment. Each service has a loader and a store of its own; the cache and the clock
they share. A service takes a step, somebody else does something to the cache, or time goes by, in any
order.

To each of the services a step of another one is a step in which somebody touches the cache or nothing
happens (`Setup.eventOf`). That a row is put into the cache at once, without asking whether the epoch has
moved, is a page of that row alone on which nothing happens in between (`seeding`).
-/

namespace ReadThrough

/-- Services `ι` that share a cache and a clock. What a service itself says of cache and clock counts for
nothing here. -/
structure Tenancy (ι ρ : Type) where
  /-- Milliseconds since the start. -/
  clock : Nat := 0
  cache : RowCache ρ
  services : ι → Service ρ

namespace Cache.Op

/-- Whether something may put a value into a segment. -/
def fills {ν : Type} (segment : String) : Op ν → Bool
  | .set s _ _ | .setIfCurrent s _ _ _ => s = segment
  | _ => false

end Cache.Op

namespace Tenancy

variable {ι ρ : Type}

/-- How a tenancy is set up: the kinds of rows are told apart, and all are kept in one segment. -/
structure Setup (ι ρ : Type) where
  segment : String
  ttl : UInt64 := 30000
  entity : ι → Entity ρ
  config : ι → CacheConfig := fun _ => {}
  segment_eq : ∀ B, (entity B).segment = segment
  kind_injective : ∀ B C, (entity B).kind = (entity C).kind → B = C

/-- What may happen next in a tenancy. -/
inductive Event (ι ρ : Type) where
  /-- A step of a service. -/
  | act (B : ι) (ev : Service.Event ρ)
  /-- Somebody else does something to the cache. -/
  | touch (op : Cache.Op (Held ρ))
  /-- Time goes by. -/
  | pass (ms : Nat)

/-- Whether a step is one that a service takes itself. -/
def own : Service.Event ρ → Bool
  | .touch _ | .pass _ => false
  | _ => true

/-- A service with the cache and the clock of all. -/
def view (s : Tenancy ι ρ) (B : ι) : Service ρ :=
  { s.services B with clock := s.clock, cache := s.cache }

/-- A row that has been found in another way is put into the cache at once. -/
def seeding (B : ι) (p : Nat) (row : ρ) : List (Event ι ρ) :=
  [.act B .note, .act B (.read p [row]), .act B (.prime p)]

namespace Setup

variable [DecidableEq ι] (T : Setup ι ρ)

/-- How one of the services is set up. -/
def service (B : ι) : Service.Setup ρ where
  entity := T.entity B
  config := { T.config B with ttl := T.ttl }

/-- The tenancy at the start. -/
def fresh : Tenancy ι ρ where
  cache := { ttl := T.ttl }
  services B := (T.service B).fresh

/-- The tenancy after an event, if the event is possible. Others put nothing into the segment. -/
def step (s : Tenancy ι ρ) : Event ι ρ → Option (Tenancy ι ρ)
  | .act B ev =>
    if own ev then
      ((T.service B).step (s.view B) ev).map fun t =>
        { s with cache := t.cache, services := Function.update s.services B t }
    else none
  | .touch op =>
    if op.fills T.segment then none else some { s with cache := op.apply s.clock s.cache }
  | .pass ms => some { s with clock := s.clock + ms }

/-- What an event of the tenancy is to one of its services. -/
def eventOf (s : Tenancy ι ρ) (B : ι) : Event ι ρ → Service.Event ρ
  | .act C ev =>
    if C = B then ev else ((T.service C).op? (s.view C) ev).elim (.pass 0) .touch
  | .touch op => .touch op
  | .pass ms => .pass ms

end Setup

end Tenancy

end ReadThrough
