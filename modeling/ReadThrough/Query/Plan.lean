import ReadThrough.Cache.Basic
import ReadThrough.Store.Filter
/-!
# Plans

A query does not touch stores, caches or sources of randomness itself. It is a `Plan`: either it is done
or it asks for something and says how to go on with every answer. Whoever carries a plan out decides
where the answers come from and how long they take. `Plan.run` carries a plan out against a state that
answers at once.
-/

namespace ReadThrough

/-- What a query asks for. The rows `ρ` are those of the entity that is queried. -/
inductive Ask (ρ : Type) where
  /-- How many rows pass a filter. -/
  | count (f : Filter)
  /-- The keys that the options ask for, in the store of a kind of rows. -/
  | findKeys (kind : String) (o : FindOptions)
  /-- The rows that the options ask for. -/
  | findMany (o : FindOptions)
  /-- The rows under the given keys, by way of the cache. -/
  | load (keys : List Key)
  /-- A random fraction. -/
  | unit
  /-- The keys in random order. -/
  | shuffle (keys : List Key)
  /-- The invalidations that there have been so far. -/
  | epoch
  /-- That rows be put into the cache, unless there has been an invalidation since the epoch. -/
  | prime (rows : List ρ) (epoch : Epoch)

/-- What an answer looks like. -/
abbrev Ask.Answer {ρ : Type} : Ask ρ → Type
  | .count _ => Except StoreError UInt64
  | .findKeys _ _ => Except StoreError (List Key)
  | .findMany _ => Except StoreError (List ρ)
  | .load _ => List (Except StoreError (Option ρ))
  | .unit => Float
  | .shuffle _ => List Key
  | .epoch => Epoch
  | .prime _ _ => Unit

/-- A query with result `α`: it is done, or it asks and goes on. -/
inductive Plan (ρ α : Type) where
  | done (a : α)
  | ask (q : Ask ρ) (next : q.Answer → Plan ρ α)

namespace Plan

variable {ρ α β σ : Type}

/-- One plan after another. -/
protected def bind : Plan ρ α → (α → Plan ρ β) → Plan ρ β
  | .done a, f => f a
  | .ask q next, f => .ask q fun answer => (next answer).bind f

instance : Monad (Plan ρ) where
  pure := .done
  bind := Plan.bind

/-- Carries a plan out. -/
def run (answer : (q : Ask ρ) → σ → q.Answer × σ) : Plan ρ α → σ → α × σ
  | .done a, s => (a, s)
  | .ask q next, s =>
    let (r, s) := answer q s
    (next r).run answer s

/-- One plan after another is carried out one after another. -/
theorem run_bind (answer : (q : Ask ρ) → σ → q.Answer × σ) (p : Plan ρ α) (f : α → Plan ρ β)
    (s : σ) :
    (p >>= f).run answer s = (f (p.run answer s).1).run answer (p.run answer s).2 := by
  induction p generalizing s with
  | done a => rfl
  | ask q next ih => exact ih (answer q s).1 (answer q s).2

end Plan

end ReadThrough
