import ReadThrough.Store.Table
/-!
# Options that name declared columns and relations only

Options are accepted exactly if every name in them is declared (`FindOptions.check_eq_ok_iff`), and what is
said of options that are refused names what is not declared (`FindOptions.check_eq_error`). A table refuses
nothing else.
-/

namespace ReadThrough

variable {ρ ω : Type} {e : Entity ρ} {o : FindOptions}

theorem Entity.hasColumn_keyColumn (e : Entity ρ) : e.hasColumn e.keyColumn = true := by
  simp [hasColumn]

namespace FindOptions

/-- Every column and every relation that the options name is declared. -/
structure Declared (o : FindOptions) (e : Entity ρ) : Prop where
  filter : ∀ c ∈ o.filter, e.hasColumn c.column = true
  order : ∀ x ∈ o.order, e.hasColumn x.column = true
  relations : ∀ name ∈ o.relations, e.hasRelation name = true

theorem Declared.columns (h : o.Declared e) : ∀ c ∈ o.columns, e.hasColumn c = true := by
  intro c hc
  rcases List.mem_append.1 hc with hc | hc
  · obtain ⟨condition, hcondition, rfl⟩ := List.mem_map.1 hc
    exact h.filter condition hcondition
  · obtain ⟨x, hx, rfl⟩ := List.mem_map.1 hc
    exact h.order x hx

theorem Declared.of_columns (hcolumns : ∀ c ∈ o.columns, e.hasColumn c = true)
    (hrelations : ∀ name ∈ o.relations, e.hasRelation name = true) : o.Declared e where
  filter _ hc := hcolumns _ (List.mem_append_left _ (List.mem_map_of_mem hc))
  order _ hx := hcolumns _ (List.mem_append_right _ (List.mem_map_of_mem hx))
  relations := hrelations

theorem Declared.check (h : o.Declared e) : o.check e = .ok () := by
  have hcolumns : o.columns.find? (!e.hasColumn ·) = none := by
    refine List.find?_eq_none.2 fun c hc => ?_
    rw [h.columns c hc]
    nofun
  have hrelations : o.relations.find? (!e.hasRelation ·) = none := by
    refine List.find?_eq_none.2 fun name hname => ?_
    rw [h.relations name hname]
    nofun
  rw [FindOptions.check, hcolumns, hrelations]

/-- What is refused is the first undeclared column, or the first undeclared relation if there is none. -/
theorem check_eq_error {err : StoreError} (h : o.check e = .error err) :
    (∃ c ∈ o.columns, e.hasColumn c = false ∧ err = .invalidInput (.unknownColumn e.segment c)) ∨
    ∃ name ∈ o.relations, e.hasRelation name = false ∧
      err = .invalidInput (.unknownRelation e.segment name) := by
  unfold FindOptions.check at h
  split at h
  · rename_i c hc
    have hundeclared := List.find?_some hc
    cases h
    exact .inl ⟨c, List.mem_of_find?_eq_some hc, by simpa using hundeclared, rfl⟩
  · split at h
    · rename_i name hname
      have hundeclared := List.find?_some hname
      cases h
      exact .inr ⟨name, List.mem_of_find?_eq_some hname, by simpa using hundeclared, rfl⟩
    · cases h

theorem check_eq_ok_iff : o.check e = .ok () ↔ o.Declared e := by
  refine ⟨fun h => ?_, Declared.check⟩
  unfold FindOptions.check at h
  split at h
  · cases h
  · rename_i hcolumns
    split at h
    · cases h
    · rename_i hrelations
      refine .of_columns (fun c hc => ?_) fun name hname => ?_
      · simpa using List.find?_eq_none.1 hcolumns c hc
      · simpa using List.find?_eq_none.1 hrelations name hname

/-- Options with an undeclared name are refused as invalid. -/
theorem exists_check_eq (h : ¬ o.Declared e) : ∃ fault, o.check e = .error (.invalidInput fault) := by
  cases hcheck : o.check e with
  | ok _ => exact absurd (check_eq_ok_iff.1 hcheck) h
  | error err =>
    rcases check_eq_error hcheck with ⟨_, _, _, rfl⟩ | ⟨_, _, _, rfl⟩ <;> exact ⟨_, rfl⟩

/-- A filter of declared columns makes options in which everything is declared. -/
theorem declared_filter {f : Filter} (h : ∀ c ∈ f, e.hasColumn c.column = true) :
    Declared { filter := f } e where
  filter := h
  order := nofun
  relations := nofun

end FindOptions

namespace Table

variable (t : Table ρ ω)

theorem findMany_of_declared (h : o.Declared e) : ∃ rows, t.findMany e o = .ok rows := by
  rw [findMany, h.check]
  exact ⟨_, rfl⟩

theorem findKeys_of_declared (h : o.Declared e) : ∃ keys, t.findKeys e o = .ok keys := by
  obtain ⟨rows, hrows⟩ := t.findMany_of_declared h
  rw [findKeys, hrows]
  exact ⟨_, rfl⟩

/-- Keys are found if there is room for one and a row to be found. -/
theorem findKeys_eq_nil_iff {n : UInt64} (hskip : o.skip = 0) (htake : o.take = some n) (hn : n ≠ 0)
    {keys : List Key} (h : t.findKeys e o = .ok keys) :
    keys = [] ↔ ∀ row ∈ t.rows.values, o.filter.accepts e row = false := by
  have hroom : n.toNat ≠ 0 := fun hzero => hn (UInt64.toNat_inj.1 hzero)
  rw [findKeys, findMany, hskip, htake] at h
  cases hcheck : o.check e with
  | error err =>
    rw [hcheck] at h
    cases h
  | ok _ =>
    rw [hcheck] at h
    cases h
    simp only [UInt64.toNat_zero, List.drop_zero, List.map_eq_nil_iff, List.take_eq_nil_iff, hroom, false_or]
    rw [← List.length_eq_zero_iff, List.length_mergeSort, List.length_eq_zero_iff, matching,
      List.filter_eq_nil_iff]
    simp

theorem count_of_declared {f : Filter} (h : ∀ c ∈ f, e.hasColumn c.column = true) :
    ∃ n, t.count e f = .ok n := by
  rw [count, (FindOptions.declared_filter h).check]
  exact ⟨_, rfl⟩

end Table

end ReadThrough
