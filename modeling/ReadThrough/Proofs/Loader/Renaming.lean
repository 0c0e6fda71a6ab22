import ReadThrough.Proofs.Loader.Numbering
/-!
# Loaders whose callers have other names

A loader passes the names of its callers on and does not look at them. So it makes no difference whether
callers get other names before something is done with a loader or afterwards.
-/

namespace ReadThrough

variable {ρ τ τ' : Type}

/-! ## Batches -/

namespace Batch

/-- The batch whose callers have other names. -/
def map (f : τ → τ') (b : Batch τ) : Batch τ' where
  generation := b.generation
  waiting := b.waiting.map fun w => (w.1, f w.2)
  keys := b.keys
  keys_eq := by
    rw [List.map_map]
    exact b.keys_eq

variable (f : τ → τ') (b : Batch τ)

theorem map_push (k : Key) (caller : τ) : (b.push k caller).map f = (b.map f).push k (f caller) := by
  simp only [map, push, List.map_append, List.map_cons, List.map_nil]

theorem callers_map (k : Key) : (b.map f).callers k = (b.callers k).map f := by
  simp only [callers, map, List.filter_map, List.map_map]
  rfl

end Batch

/-! ## Flights -/

namespace Flight

/-- The flight whose callers have other names. -/
def map (f : τ → τ') (x : Flight ρ τ) : Flight ρ τ' where
  batch := x.batch.map f
  stage := x.stage

theorem replies_map (f : τ → τ') (x : Flight ρ τ) :
    (x.map f).replies = x.replies.map fun a => (f a.1, a.2) := by
  obtain ⟨b, stage⟩ := x
  rcases stage with _ | _ | ⟨epoch, values, _ | ⟨v, unwritten⟩⟩ | e
  · rfl
  · rfl
  · simp only [map, replies, Batch.callers_map, List.map_flatMap, List.map_map]
    rfl
  · rfl
  · simp only [map, replies, Batch.map, List.map_map]
    rfl

end Flight

/-! ## Loaders -/

namespace Loader

/-- The loader whose callers have other names. -/
def map (f : τ → τ') (l : Loader ρ τ) : Loader ρ τ' where
  pending := l.pending.map (Batch.map f)
  generation := l.generation
  flights := l.flights.map (Flight.map f)

variable (f : τ → τ') (l : Loader ρ τ)

theorem current_map : (l.map f).current = l.current.map f := by
  cases h : l.pending <;> simp only [current, map, h] <;> rfl

theorem join_map (threshold : Nat) (k : Key) (caller : τ) :
    (l.map f).join threshold k (f caller) =
      ((l.join threshold k caller).1, (l.join threshold k caller).2.map f) := by
  have hpush : (l.map f).current.push k (f caller) = (l.current.push k caller).map f := by
    rw [current_map, Batch.map_push]
  have hsome : (l.map f).pending.isSome = l.pending.isSome := Option.isSome_map
  have hsize : ((l.current.push k caller).map f).size = (l.current.push k caller).size := rfl
  simp only [join, hpush, hsome, hsize]
  split
  · simp only [map, Option.map_none, List.map_append, List.map_cons, List.map_nil]
    rfl
  · rfl

theorem flight?_map (g : Nat) : (l.map f).flight? g = (l.flight? g).map (Flight.map f) :=
  List.find?_map

theorem settle_map (g : Nat) (key : ρ → Key) (enabled : Bool) (answer : Except StoreError (List ρ)) :
    (l.map f).settle g key enabled answer = (l.settle g key enabled answer).map f := by
  have hflight : ∀ x : Flight ρ τ, (x.map f).settle key enabled answer = (x.settle key enabled answer).map f := by
    rintro ⟨b, stage⟩
    cases stage <;> cases answer <;> rfl
  simp only [settle, Loader.modify, map, List.map_map]
  congr 1
  refine List.map_congr_left fun x _ => ?_
  show (if x.batch.generation = g then _ else _) = Flight.map f (if x.batch.generation = g then _ else _)
  split
  · exact hflight x
  · rfl

theorem reply_map (g : Nat) :
    (l.map f).reply g = ((l.reply g).1.map fun a => (f a.1, a.2), (l.reply g).2.map f) := by
  rw [reply, flight?_map]
  cases h : l.flight? g with
  | none =>
    rw [reply, h]
    rfl
  | some x =>
    rw [reply, h]
    simp only [Option.map_some, Flight.replies_map, remove, map, List.filter_map]
    rfl

end Loader

end ReadThrough
