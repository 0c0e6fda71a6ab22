import ReadThrough.Cache.Basic
import ReadThrough.Loader.Batch
import ReadThrough.Store.Error
/-!
# Loaders

A loader gathers the loads of one entity into batches. At most one batch is open. It is closed when it
is full or when its delay has passed, whichever comes first; the delay of a batch that is closed already
has no effect. A closed batch is a `Flight`: it takes note of the epoch, asks the store, writes what it
learns of each of its keys to the cache, and only then answers those who wait. A flight that fails
writes nothing.

The loader has no clock, no store and no cache. It says what is to be done next, and is told what came
of it, one step at a time; between two steps anything may happen.
-/

namespace ReadThrough

/-- How far a closed batch has come. -/
inductive Stage (ρ : Type) where
  /-- Nothing has been done yet. -/
  | closed
  /-- The store has been asked at this epoch. -/
  | asked (epoch : Epoch)
  /-- The store has answered; some keys are still to be written to the cache. -/
  | answered (epoch : Epoch) (values : List (Key × Option ρ)) (unwritten : List (Key × Option ρ))
  | failed (error : StoreError)
  deriving DecidableEq, Repr

/-- A closed batch on its way. -/
structure Flight (ρ τ : Type) where
  batch : Batch τ
  stage : Stage ρ := .closed
  deriving DecidableEq, Repr

/-- What a caller hears of a load. -/
abbrev Loaded (ρ : Type) := Except StoreError (Option ρ)

/-- The batches of an entity: the open one, and those on their way. -/
structure Loader (ρ τ : Type) where
  pending : Option (Batch τ) := none
  /-- The number of the next batch. -/
  generation : Nat := 0
  flights : List (Flight ρ τ) := []

namespace Flight

variable {ρ τ : Type}

/-- The last row under each key of the batch, or its absence, among the rows that the store has
delivered. Rows that nobody asked for are passed over. -/
def found? (key : ρ → Key) (rows : List ρ) (k : Key) : Option ρ := rows.reverse.find? (key · = k)

/-- Takes in the store's answer. With the cache off there is nothing to write. -/
def settle (f : Flight ρ τ) (key : ρ → Key) (enabled : Bool)
    (answer : Except StoreError (List ρ)) : Flight ρ τ :=
  match f.stage, answer with
  | .asked epoch, .ok rows =>
    let values := f.batch.keys.map fun k => (k, found? key rows k)
    { f with stage := .answered epoch values (if enabled then values else []) }
  | .asked _, .error e => { f with stage := .failed e }
  | _, _ => f

/-- What each caller hears, if the flight has come to its end: the callers of a key in order of arrival,
key by key. -/
def replies (f : Flight ρ τ) : List (τ × Loaded ρ) :=
  match f.stage with
  | .answered _ values [] =>
    values.flatMap fun v => (f.batch.callers v.1).map fun caller => (caller, .ok v.2)
  | .failed e => f.batch.waiting.map fun w => (w.2, .error e)
  | _ => []

end Flight

namespace Loader

variable {ρ τ : Type}

/-! ## Gathering -/

/-- What a load has brought about. -/
inductive Joined where
  /-- It has joined a batch that was open. -/
  | waits
  /-- It has opened a batch, whose delay begins. -/
  | opens
  /-- It has filled a batch that was open. -/
  | fills
  /-- It has opened a batch and filled it at once; its delay begins all the same. -/
  | opensAndFills
  deriving DecidableEq, Repr

/-- Whether a delay begins. -/
def Joined.opened : Joined → Bool
  | .opens | .opensAndFills => true
  | .waits | .fills => false

/-- Whether a batch has been closed. -/
def Joined.filled : Joined → Bool
  | .fills | .opensAndFills => true
  | .waits | .opens => false

/-- The open batch, or a new one. -/
def current (l : Loader ρ τ) : Batch τ := l.pending.getD { generation := l.generation }

/-- A load joins the open batch, or opens one. A batch that has so many keys is closed. -/
def join (l : Loader ρ τ) (threshold : Nat) (k : Key) (caller : τ) : Joined × Loader ρ τ :=
  let batch := l.current.push k caller
  let generation := if l.pending.isSome then l.generation else l.generation + 1
  if threshold ≤ batch.size then
    (if l.pending.isSome then .fills else .opensAndFills,
      { pending := none, generation, flights := l.flights ++ [{ batch }] })
  else
    (if l.pending.isSome then .waits else .opens,
      { l with pending := some batch, generation })

/-- The delay of a batch has passed. It is closed unless it has been closed before; the answer says
whether it was. -/
def elapse (l : Loader ρ τ) (generation : Nat) : Bool × Loader ρ τ :=
  match l.pending with
  | some batch =>
    if batch.generation = generation then
      (true, { l with pending := none, flights := l.flights ++ [{ batch }] })
    else (false, l)
  | none => (false, l)

/-! ## Batches on their way -/

/-- The flight of a batch. -/
def flight? (l : Loader ρ τ) (generation : Nat) : Option (Flight ρ τ) :=
  l.flights.find? (·.batch.generation = generation)

/-- Changes the flight of a batch. -/
def modify (l : Loader ρ τ) (generation : Nat) (f : Flight ρ τ → Flight ρ τ) : Loader ρ τ :=
  { l with flights := l.flights.map fun x => if x.batch.generation = generation then f x else x }

/-- The loader without the flight of a batch. -/
def remove (l : Loader ρ τ) (generation : Nat) : Loader ρ τ :=
  { l with flights := l.flights.filter (·.batch.generation ≠ generation) }

/-- A closed batch takes note of the epoch and asks the store for its keys. -/
def start (l : Loader ρ τ) (generation : Nat) (epoch : Epoch) : List Key × Loader ρ τ :=
  match l.flight? generation with
  | some { batch, stage := .closed } =>
    (batch.keys, l.modify generation fun f => { f with stage := .asked epoch })
  | _ => ([], l)

/-- The store has answered, or it has not in time. -/
def settle (l : Loader ρ τ) (generation : Nat) (key : ρ → Key) (enabled : Bool)
    (answer : Except StoreError (List ρ)) : Loader ρ τ :=
  l.modify generation fun f => f.settle key enabled answer

/-- The next key to be written to the cache, what is known of it, and the epoch at which the store was
asked. -/
def write? (l : Loader ρ τ) (generation : Nat) : Option (Key × Option ρ × Epoch × Loader ρ τ) :=
  match l.flight? generation with
  | some { stage := .answered epoch values ((k, row) :: unwritten), .. } =>
    some (k, row, epoch,
      l.modify generation fun f => { f with stage := .answered epoch values unwritten })
  | _ => none

/-- A flight that has come to its end answers its callers. -/
def reply (l : Loader ρ τ) (generation : Nat) : List (τ × Loaded ρ) × Loader ρ τ :=
  match l.flight? generation with
  | some f => (f.replies, l.remove generation)
  | none => ([], l)

/-- A flight ends without an answer of the store. -/
def abandon (l : Loader ρ τ) (generation : Nat) : List (τ × Loaded ρ) × Loader ρ τ :=
  match l.flight? generation with
  | some f => (f.batch.waiting.map fun w => (w.2, .error .aborted), l.remove generation)
  | none => ([], l)

end Loader

end ReadThrough
