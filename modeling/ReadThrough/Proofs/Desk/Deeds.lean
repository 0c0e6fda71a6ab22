import ReadThrough.Proofs.Desk.Basic
import ReadThrough.Proofs.Store.Order
/-!
# What deeds do to rows

On the stock alone, what is under a key after some deeds has been there before, or one of them has put it
there (`Engine.get?_performAll`). So a row that is not removed stays, and rows go on holding their keys.
-/

namespace ReadThrough

variable {ρ : Type}

namespace Engine

variable (g : Engine ρ)

/-- Whatever is asked for, the tables stay as they are. -/
theorem run_eq {α : Type} (p : Plan ρ α) (s : Stock ρ) :
    (p.run g.answer s).2 = { s with random := (p.run g.answer s).2.random } := by
  induction p generalizing s with
  | done a => rfl
  | ask q next ih => cases q <;> exact ih _ _

theorem rows_run {α : Type} (p : Plan ρ α) (s : Stock ρ) : (p.run g.answer s).2.rows = s.rows := by
  rw [run_eq]

/-- What is under a key after a deed has been there before, or a change to the key has put it there. -/
theorem get?_perform (s : Stock ρ) (deed : Deed ρ) (k : Key) :
    (g.perform s deed).2.rows.get? k = s.rows.get? k ∨
      ∃ w, deed = .change w ∧ w.key g.entity = k ∧ (g.perform s deed).2.rows.get? k = w.row? := by
  cases deed with
  | resolve r =>
    refine .inl ?_
    show ((g.resolve _).run.run g.answer s).2.rows.get? k = _
    rw [rows_run]
  | change w =>
    simp only [perform, change]
    cases h : s.rows.write? g.entity w with
    | none => exact .inl rfl
    | some p =>
      have hget := (Table.of_write? h).2 k
      by_cases hk : k = w.key g.entity
      · rw [if_pos hk] at hget
        exact .inr ⟨w, rfl, hk.symm, hget⟩
      · rw [if_neg hk] at hget
        exact .inl hget
  | recategorize w =>
    simp only [perform, recategorize]
    cases g.resolver.bind fun r => s.categories.write? r.entity w with
    | none => exact .inl rfl
    | some p => exact .inl rfl
  | invalidate | clearAll | purge | pass => exact .inl rfl

/-- What is under a key after deeds has been there before, or one of them has put it there. -/
theorem get?_performAll (s : Stock ρ) (deeds : List (Deed ρ)) (k : Key) :
    (g.performAll s deeds).2.rows.get? k = s.rows.get? k ∨
      ∃ w, .change w ∈ deeds ∧ w.key g.entity = k ∧ (g.performAll s deeds).2.rows.get? k = w.row? := by
  induction deeds generalizing s with
  | nil => exact .inl rfl
  | cons deed deeds ih =>
    rcases ih (g.perform s deed).2 with hrest | ⟨w, hw, hkey, hrest⟩
    · rcases g.get?_perform s deed k with hdeed | ⟨w, rfl, hkey, hdeed⟩
      · exact .inl (hrest.trans hdeed)
      · exact .inr ⟨w, List.mem_cons_self, hkey, hrest.trans hdeed⟩
    · exact .inr ⟨w, List.mem_cons_of_mem _ hw, hkey, hrest⟩

variable {g} {s : Stock ρ} {deeds : List (Deed ρ)}

/-- A row that is not removed is still there. -/
theorem isSome_performAll {k : Key} (hspared : .change (.remove k) ∉ deeds)
    (hthere : (s.rows.get? k).isSome = true) :
    ((g.performAll s deeds).2.rows.get? k).isSome = true := by
  rcases g.get?_performAll s deeds k with hsame | ⟨w, hw, hkey, hnew⟩
  · rw [hsame]
    exact hthere
  · rw [hnew]
    cases w with
    | insert | update => rfl
    | remove k' =>
      obtain rfl : k' = k := hkey
      exact absurd hw hspared

/-- If the rows that are written hold their keys, then all rows still do. -/
theorem keyed_performAll (hwritten : ∀ w, .change w ∈ deeds → ∀ row ∈ w.row?, g.entity.Keyed row)
    (hkeyed : ∀ k row, s.rows.get? k = some row → g.entity.Keyed row) (k : Key) (row : ρ)
    (hrow : (g.performAll s deeds).2.rows.get? k = some row) : g.entity.Keyed row := by
  rcases g.get?_performAll s deeds k with hsame | ⟨w, hw, -, hnew⟩
  · exact hkeyed k row (hsame ▸ hrow)
  · exact hwritten w hw row (hnew ▸ hrow)

end Engine

end ReadThrough
