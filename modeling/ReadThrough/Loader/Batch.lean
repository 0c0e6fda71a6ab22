import ReadThrough.Key
import ReadThrough.Mention
/-!
# Batches

A batch gathers loads for a while. It knows who waits for which key, in order of arrival. The store is
asked for each key once, in the order in which the keys first arrived.
-/

namespace ReadThrough

/-- Loads that the store is asked for together. A caller `τ` waits for one key. -/
structure Batch (τ : Type) where
  /-- The number of the batch; every batch of a loader has its own. -/
  generation : Nat
  waiting : List (Key × τ) := []
  /-- The keys, each once, in the order in which they first arrived. -/
  keys : List Key := distinct (waiting.map Prod.fst)
  keys_eq : keys = distinct (waiting.map Prod.fst) := by rfl
  deriving DecidableEq, Repr

namespace Batch

variable {τ : Type}

/-- The number of keys. -/
def size (b : Batch τ) : Nat := b.keys.length

/-- The batch with one more load. -/
def push (b : Batch τ) (k : Key) (caller : τ) : Batch τ where
  generation := b.generation
  waiting := b.waiting ++ [(k, caller)]
  keys := addOnce b.keys k
  keys_eq := by simp [b.keys_eq, distinct]

/-- Who waits for a key, in order of arrival. -/
def callers (b : Batch τ) (k : Key) : List τ :=
  (b.waiting.filter fun w => w.1 = k).map Prod.snd

theorem nodup_keys (b : Batch τ) : b.keys.Nodup := b.keys_eq ▸ nodup_distinct _

/-- The keys of a batch are those that somebody waits for. -/
theorem mem_keys {b : Batch τ} {k : Key} : k ∈ b.keys ↔ ∃ caller, (k, caller) ∈ b.waiting := by
  simp [b.keys_eq]

theorem keys_push (b : Batch τ) (k : Key) (caller : τ) :
    (b.push k caller).keys = addOnce b.keys k := rfl

theorem callers_push (b : Batch τ) (k k' : Key) (caller : τ) :
    (b.push k caller).callers k' = b.callers k' ++ if k = k' then [caller] else [] := by
  by_cases h : k = k' <;> simp [callers, push, h]

end Batch

end ReadThrough
