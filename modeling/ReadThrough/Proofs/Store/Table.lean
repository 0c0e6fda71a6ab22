import ReadThrough.Loader.Basic
import ReadThrough.Proofs.Dict
import ReadThrough.Store.Table
/-!
# Tables and what is read from them

In a table every row stands under its own key (`Table.WellKeyed`). Hence what a batch finds for one of
its keys is the row that the table has under the key (`Table.WellKeyed.found?_findByIds`), and so is
every row of a page (`Table.WellKeyed.get?_of_findMany`). A change (`Write`) is about one row, and all
observers of the table are told of it (`Table.of_write?`).
-/

namespace ReadThrough

/-! ## Rows by key -/

namespace Table

variable {ρ ω : Type}

/-- Every row stands under its own key. -/
def WellKeyed (e : Entity ρ) (t : Table ρ ω) : Prop := ∀ k row, t.get? k = some row → e.key row = k

variable {e : Entity ρ} {t t' : Table ρ ω}

theorem wellKeyed_ofRows (e : Entity ρ) (rows : List ρ) : (ofRows e rows : Table ρ ω).WellKeyed e := by
  have h : ∀ (rows : List ρ) (d : Dict Key ρ), (∀ k row, d.find? k = some row → e.key row = k) →
      ∀ k row, ((rows.map fun r => (e.key r, r)).foldl (fun d p => d.insert p.1 p.2) d).find? k =
        some row → e.key row = k := by
    intro rows
    induction rows with
    | nil => exact fun d hd => hd
    | cons r rows ih =>
      refine fun d hd => ih _ fun k row hk => ?_
      rw [Dict.find?_insert] at hk
      split at hk
      · rename_i hkey
        cases hk
        exact hkey.symm
      · exact hd k row hk
  exact h rows .empty fun k row hk => by cases hk

/-- What is in a table of rows is one of the rows. -/
theorem mem_of_get?_ofRows {rows : List ρ} {k : Key} {row : ρ}
    (h : (ofRows e rows : Table ρ ω).get? k = some row) : row ∈ rows := by
  have hall : ∀ (rows : List ρ) (d : Dict Key ρ),
      ((rows.map fun r => (e.key r, r)).foldl (fun d p => d.insert p.1 p.2) d).find? k = some row →
      d.find? k = some row ∨ row ∈ rows := by
    intro rows
    induction rows with
    | nil => exact fun d hd => .inl hd
    | cons r rows ih =>
      intro d hd
      rcases ih _ hd with hd | hrow
      · rw [Dict.find?_insert] at hd
        split at hd
        · cases hd
          exact .inr List.mem_cons_self
        · exact .inl hd
      · exact .inr (List.mem_cons_of_mem _ hrow)
  rcases hall rows .empty h with hnone | hrow
  · cases hnone
  · exact hrow

/-- For every key that it asks for a batch finds the row of the table, or that there is none. -/
theorem WellKeyed.found?_findByIds (h : t.WellKeyed e) {keys : List Key} {k : Key} (hk : k ∈ keys) :
    Flight.found? e.key (t.findByIds keys) k = t.get? k := by
  -- Whatever a batch finds stands in the table under its own key.
  have hmem : ∀ row, row ∈ t.findByIds keys → t.get? (e.key row) = some row := by
    intro row hrow
    obtain ⟨k', -, hk'⟩ := List.mem_filterMap.1 hrow
    rw [h k' row hk', hk']
  cases hf : Flight.found? e.key (t.findByIds keys) k with
  | some row =>
    have hrow := List.mem_reverse.1 (List.mem_of_find?_eq_some hf)
    have hkey : e.key row = k := by simpa using List.find?_some hf
    rw [← hkey, hmem row hrow]
  | none =>
    cases hg : t.get? k with
    | none => rfl
    | some row =>
      have hrow : row ∈ (t.findByIds keys).reverse :=
        List.mem_reverse.2 (List.mem_filterMap.2 ⟨k, hk, hg⟩)
      have hno := List.find?_eq_none.1 hf row hrow
      exact absurd (decide_eq_true (h k row hg)) hno

/-- The rows of a page are rows of the table. -/
theorem WellKeyed.get?_of_findMany (h : t.WellKeyed e) {o : FindOptions} {rows : List ρ} {row : ρ}
    (hf : t.findMany e o = .ok rows) (hrow : row ∈ rows) : t.get? (e.key row) = some row := by
  have hmatch : row ∈ t.matching e o.filter := by
    simp only [findMany, bind, Except.bind, pure, Except.pure] at hf
    split at hf
    · cases hf
    · cases hf
      -- A page is a part of the rows that match, put in order.
      have hdrop : row ∈ ((t.matching e o.filter).mergeSort
          fun a b => (e.compareBy o.order a b).isLE).drop o.skip.toNat := by
        split at hrow
        · exact List.mem_of_mem_take hrow
        · exact hrow
      exact List.mem_mergeSort.1 (List.mem_of_mem_drop hdrop)
  obtain ⟨k, hk⟩ := Dict.exists_find?_of_mem_values (List.mem_filter.1 hmatch).1
  have hk : t.get? k = some row := hk
  rw [h k row hk, hk]

end Table

/-! ## Changes -/

section Write

variable {ρ ω : Type}

/-- A change to a table. -/
inductive Write (ρ : Type) where
  | insert (row : ρ)
  | update (row : ρ)
  | remove (k : Key)

/-- The key whose row is changed. -/
def Write.key (e : Entity ρ) : Write ρ → Key
  | .insert row | .update row => e.key row
  | .remove k => k

/-- The row that is under the key after the change. -/
def Write.row? : Write ρ → Option ρ
  | .insert row | .update row => some row
  | .remove _ => none

/-- The table after a change, and the notices of it, unless there is nothing to change. -/
def Table.write? (e : Entity ρ) (t : Table ρ ω) : Write ρ → Option (Table ρ ω × List (Notice ω))
  | .insert row => (t.insert e row).toOption
  | .update row => (t.update e row).toOption
  | .remove k => (t.get? k).map fun _ => (t.remove e k).2

variable {e : Entity ρ} {t t' : Table ρ ω} {w : Write ρ} {news : List (Notice ω)}

/-- A change is about the row under its key and no other, and all observers are told so. -/
theorem Table.of_write? (h : t.write? e w = some (t', news)) :
    (∃ change, news = t.notices change e.segment (w.key e)) ∧
      ∀ k, t'.get? k = if k = w.key e then w.row? else t.get? k := by
  cases w with
  | insert row =>
    simp only [write?] at h
    cases hi : t.insert e row with
    | error err =>
      rw [hi] at h
      cases h
    | ok p =>
      rw [hi] at h
      cases h
      refine ⟨⟨.insert, ?_⟩, get?_of_insert hi⟩
      simp only [insert] at hi
      split at hi <;> cases hi
      rfl
  | update row =>
    simp only [write?] at h
    cases hi : t.update e row with
    | error err =>
      rw [hi] at h
      cases h
    | ok p =>
      rw [hi] at h
      cases h
      refine ⟨⟨.update, ?_⟩, get?_of_update hi⟩
      simp only [update] at hi
      split at hi <;> cases hi
      rfl
  | remove k =>
    simp only [write?, Option.map_eq_some_iff] at h
    obtain ⟨row, hrow, h⟩ := h
    have ht : (t.remove e k).2.1 = t' := by rw [h]
    refine ⟨⟨.remove, ?_⟩, fun k' => ht ▸ get?_remove e t k k'⟩
    rw [Table.remove, hrow] at h
    cases h
    rfl

theorem Table.WellKeyed.of_write? (ht : t.WellKeyed e) (h : t.write? e w = some (t', news)) :
    t'.WellKeyed e := by
  intro k row hk
  rw [(Table.of_write? h).2] at hk
  split at hk
  · rename_i hkey
    subst hkey
    cases w with
    | insert row' | update row' =>
      cases hk
      rfl
    | remove k => cases hk
  · exact ht k row hk

/-- A change leaves the observers as they are. -/
theorem Table.observers_of_write? (h : t.write? e w = some (t', news)) :
    t'.observers = t.observers := by
  cases w with
  | insert row =>
    simp only [write?, insert] at h
    split at h <;> cases h
    rfl
  | update row =>
    simp only [write?, update] at h
    split at h <;> cases h
    rfl
  | remove k =>
    simp only [write?, remove, Option.map_eq_some_iff] at h
    obtain ⟨row, hrow, h⟩ := h
    rw [hrow] at h
    cases h
    rfl

end Write

end ReadThrough
