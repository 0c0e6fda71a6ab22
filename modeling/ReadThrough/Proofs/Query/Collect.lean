import Mathlib.Data.List.Forall2
import ReadThrough.Query.Engine
/-!
# What several loads come to

The results of several loads are either all rows, or there is a first error among them (`Query.split_results`).
In the one case they come to the rows that were found, in the order of the loads (`Query.collect_eq_ok_iff`), and
in the other to the error. Where every load of some places comes to one result at most, the places say which it
is (`Query.collect_eq_ok_iff_of_forall₂`, `Query.collect_eq_error_iff_of_forall₂`).
-/

namespace ReadThrough.Query

variable {ρ : Type}

theorem collect_ok (found : List (Option ρ)) : collect (found.map .ok) = .ok (found.filterMap id) := by
  have hmap : (found.map .ok : List (Except StoreError (Option ρ))).mapM id = .ok found := by
    induction found with
    | nil => rfl
    | cons row found ih =>
      rw [List.map_cons, List.mapM_cons, ih]
      rfl
  rw [collect, hmap]
  rfl

theorem collect_error (found : List (Option ρ)) (e : StoreError) (rest : List (Except StoreError (Option ρ))) :
    collect (found.map .ok ++ .error e :: rest) = .error e := by
  have hmap : (found.map .ok ++ .error e :: rest : List (Except StoreError (Option ρ))).mapM id = .error e := by
    induction found with
    | nil => rfl
    | cons row found ih =>
      rw [List.map_cons, List.cons_append, List.mapM_cons, ih]
      rfl
  rw [collect, hmap]
  rfl

/-- Either no load has failed, or one has failed first. -/
theorem split_results (xs : List (Except StoreError (Option ρ))) :
    (∃ found : List (Option ρ), xs = found.map .ok) ∨
      ∃ (found : List (Option ρ)) (e : StoreError) (rest : List (Except StoreError (Option ρ))),
        xs = found.map .ok ++ .error e :: rest := by
  induction xs with
  | nil => exact .inl ⟨[], rfl⟩
  | cons x xs ih =>
    cases x with
    | error e => exact .inr ⟨[], e, xs, rfl⟩
    | ok row =>
      rcases ih with ⟨found, rfl⟩ | ⟨found, e, rest, rfl⟩
      · exact .inl ⟨row :: found, rfl⟩
      · exact .inr ⟨row :: found, e, rest, rfl⟩

variable {xs : List (Except StoreError (Option ρ))}

theorem collect_eq_ok_iff {rows : List ρ} :
    collect xs = .ok rows ↔ ∃ found : List (Option ρ), xs = found.map .ok ∧ rows = found.filterMap id := by
  constructor
  · intro h
    rcases split_results xs with ⟨found, rfl⟩ | ⟨found, e, rest, rfl⟩
    · rw [collect_ok] at h
      cases h
      exact ⟨found, rfl, rfl⟩
    · rw [collect_error] at h
      cases h
  · rintro ⟨found, rfl, rfl⟩
    exact collect_ok found

theorem collect_cons_ok_eq_error_iff {row : Option ρ} {e : StoreError} :
    collect (.ok row :: xs) = .error e ↔ collect xs = .error e := by
  rcases split_results xs with ⟨found, rfl⟩ | ⟨found, e', rest, rfl⟩
  · have hcons : collect (.ok row :: found.map .ok) = .ok ((row :: found).filterMap id) :=
      collect_ok (row :: found)
    rw [hcons, collect_ok]
    exact ⟨nofun, nofun⟩
  · have hcons : collect (.ok row :: (found.map .ok ++ .error e' :: rest)) = .error e' :=
      collect_error (row :: found) e' rest
    rw [hcons, collect_error]

section

variable {α : Type} {Q : α → Except StoreError (Option ρ) → Prop} {places : List α}

/-- All places have come to rows or to nothing, and then the rows are those that there are. -/
theorem collect_eq_ok_iff_of_forall₂ (hQ : Relator.RightUnique Q) (h : List.Forall₂ Q places xs)
    {rows : List ρ} :
    collect xs = .ok rows ↔
      ∃ found : List (Option ρ), List.Forall₂ (fun p row => Q p (.ok row)) places found ∧
        rows = found.filterMap id := by
  rw [collect_eq_ok_iff]
  constructor
  · rintro ⟨found, rfl, rfl⟩
    exact ⟨found, List.forall₂_map_right_iff.1 h, rfl⟩
  · rintro ⟨found, hfound, rfl⟩
    exact ⟨found, List.right_unique_forall₂' hQ h (List.forall₂_map_right_iff.2 hfound), rfl⟩

/-- A place has come to an error, and all places before it have not. -/
theorem collect_eq_error_iff_of_forall₂ (hQ : Relator.RightUnique Q) (h : List.Forall₂ Q places xs)
    {e : StoreError} :
    collect xs = .error e ↔ ∃ before p after, places = before ++ p :: after ∧
      (∀ q ∈ before, ∃ row, Q q (.ok row)) ∧ Q p (.error e) := by
  induction h with
  | nil =>
    constructor
    · exact nofun
    · rintro ⟨before, p, after, heq, -⟩
      cases before <;> cases heq
  | @cons p x places xs hp hrest ih =>
    cases x with
    | error e' =>
      have hfirst : collect (.error e' :: xs) = .error e' := collect_error [] e' xs
      rw [hfirst]
      constructor
      · intro heq
        cases heq
        exact ⟨[], p, places, rfl, nofun, hp⟩
      · rintro ⟨before, p', after, heq, hbefore, herror⟩
        cases before with
        | nil =>
          cases heq
          cases hQ hp herror
          rfl
        | cons q before =>
          cases heq
          obtain ⟨row, hrow⟩ := hbefore _ List.mem_cons_self
          cases hQ hp hrow
    | ok row =>
      rw [collect_cons_ok_eq_error_iff, ih]
      constructor
      · rintro ⟨before, p', after, rfl, hbefore, herror⟩
        exact ⟨p :: before, p', after, rfl, List.forall_mem_cons.2 ⟨⟨row, hp⟩, hbefore⟩, herror⟩
      · rintro ⟨before, p', after, heq, hbefore, herror⟩
        cases before with
        | nil =>
          cases heq
          cases hQ hp herror
        | cons q before =>
          cases heq
          exact ⟨before, p', after, rfl, (List.forall_mem_cons.1 hbefore).2, herror⟩

end

/-- An error of the store can be told from the error of a query that it becomes. -/
theorem eq_of_mapError_store {α : Type} {x y : Except StoreError α}
    (h : x.mapError QueryError.store = y.mapError .store) : x = y := by
  cases x <;> cases y <;> cases h <;> rfl

/-- There are no more rows than loads. -/
theorem length_collect {rows : List ρ} (h : collect xs = .ok rows) : rows.length ≤ xs.length := by
  obtain ⟨found, rfl, rfl⟩ := collect_eq_ok_iff.1 h
  rw [List.length_map]
  exact List.length_filterMap_le id found

end ReadThrough.Query
