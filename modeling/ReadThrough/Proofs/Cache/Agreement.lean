import ReadThrough.Cache.Held
import ReadThrough.Proofs.Cache.History
import ReadThrough.Proofs.Store.Table
/-!
# Caches that agree with a table

A cache agrees with a table if it holds nothing of the table's rows but what the table has
(`RowCache.Agrees`). It does so for as long as nothing else is put into it, whatever is taken away; and
when a row changes, it does so again once it has let go of the row.
-/

namespace ReadThrough

variable {ρ ω : Type} {e : Entity ρ} {t t' : Table ρ ω} {c : RowCache ρ}

namespace RowCache

/-- What a cache holds of the rows of an entity is what the table has. -/
def Agrees (e : Entity ρ) (t : Table ρ ω) (c : RowCache ρ) : Prop :=
  ∀ k x, c.find? e.segment k = some x → x.value.kind = e.kind → x.value.row = t.get? k

theorem agrees_empty (ttl : UInt64) : Agrees e t { ttl } := by
  intro k x hx
  cases hx

/-- A cache into which nothing is put but what the table has goes on to agree with the table. -/
theorem Agrees.apply (h : Agrees e t c) (now : Nat) (op : Cache.Op (Held ρ))
    (hop : ∀ k v, op.stores? e.segment k = some v → v.kind = e.kind → v.row = t.get? k) :
    Agrees e t (op.apply now c) := by
  intro k x hx hkind
  rcases Cache.find?_apply hx with ⟨hx, -⟩ | hstore
  · exact h k x hx hkind
  · exact hop k x.value hstore hkind

/-- Nothing comes into the cache with an operation that stores nothing. -/
theorem Agrees.apply_of_stores?_none (h : Agrees e t c) (now : Nat) (op : Cache.Op (Held ρ))
    (hop : ∀ k, op.stores? e.segment k = none) : Agrees e t (op.apply now c) := by
  refine h.apply now op fun k v hv => ?_
  rw [hop k] at hv
  cases hv

theorem Agrees.keepIfCurrent (h : Agrees e t c) (now : Nat) (k : Key) (epoch : Epoch) :
    Agrees e t (c.keepIfCurrent now e k (t.get? k) epoch).2 := by
  refine h.apply now (.setIfCurrent e.segment k { kind := e.kind, row := t.get? k } epoch) ?_
  intro k' v hv _
  simp only [Cache.Op.stores?, true_and] at hv
  split at hv
  · rename_i hk
    cases hv
    rw [hk]
  · cases hv

theorem Agrees.keepAllIfCurrent {rows : List ρ} (h : Agrees e t c)
    (hrows : ∀ row ∈ rows, t.get? (e.key row) = some row) (now : Nat) (epoch : Epoch) :
    Agrees e t (c.keepAllIfCurrent now e rows epoch) := by
  induction rows generalizing c with
  | nil => exact h
  | cons row rows ih =>
    have hfirst := h.keepIfCurrent now (e.key row) epoch
    rw [hrows row List.mem_cons_self] at hfirst
    exact ih hfirst fun row hrow => hrows row (List.mem_cons_of_mem _ hrow)

theorem Agrees.invalidate (h : Agrees e t c) (segment : String) (k : Option Key) :
    Agrees e t (c.invalidate segment k) := by
  cases k with
  | none => exact h.apply 0 (.clearSegment segment) nofun
  | some k => exact h.apply 0 (.delete segment k) nofun

/-- A cache that lets go of a row that has changed agrees with the table again. -/
theorem Agrees.of_write {w : Write ρ} {news : List (Notice ω)} (h : Agrees e t c)
    (hw : t.write? e w = some (t', news)) :
    Agrees e t' (c.invalidate e.segment (some (w.key e))) := by
  intro k x hx hkind
  have hfind := Cache.find?_delete c e.segment e.segment (w.key e) k
  rw [show (c.delete e.segment (w.key e)).2.find? e.segment k = some x from hx] at hfind
  rw [(Table.of_write? hw).2]
  split at hfind
  · cases hfind
  · rename_i hne
    rw [if_neg fun hk => hne ⟨rfl, hk⟩]
    exact h k x hfind.symm hkind

end RowCache

end ReadThrough
