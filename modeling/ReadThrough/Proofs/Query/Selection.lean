import ReadThrough.Proofs.Mention
import ReadThrough.Proofs.Store.Options
import ReadThrough.Query.Selection
/-!
# Selections keep declared names only

The relations and the columns of a selection are gathered apart, in the same way (`Selection.relations_ofFields`,
`Selection.columns_ofFields`). Whatever fields a request names, what is left of them is declared
(`Selection.declared_ofFields`), and so are the columns that a store should deliver (`Selection.Declared.select`).
-/

namespace ReadThrough.Selection

variable {ρ : Type} {e : Entity ρ} {s : Selection}

/-! ## Relations and columns -/

/-- The names at the heads of fields that a test accepts, each once. -/
def gathered (test : String → Bool) (fields : List String) : List String :=
  distinct ((fields.map head).filter test)

theorem mem_gathered {test : String → Bool} {fields : List String} {name : String} :
    name ∈ gathered test fields ↔ (∃ field ∈ fields, head field = name) ∧ test name = true := by
  rw [gathered, mem_distinct, List.mem_filter, List.mem_map]

theorem gathered_append (test : String → Bool) (a b : List String) :
    gathered test (a ++ b) = gathered test a ++ (gathered test b).filter (· ∉ gathered test a) := by
  rw [gathered, List.map_append, List.filter_append]
  exact distinct_append _ _

theorem relations_add (s : Selection) (field : String) : (s.add e field).relations =
    if e.hasRelation (head field) = true then addOnce s.relations (head field) else s.relations := by
  unfold add
  dsimp only
  split
  · rfl
  · split <;> rfl

/-- A name that is both is no column. -/
theorem columns_add (s : Selection) (field : String) : (s.add e field).columns =
    if (e.hasColumn (head field) && !e.hasRelation (head field)) = true then addOnce s.columns (head field)
    else s.columns := by
  unfold add
  dsimp only
  cases e.hasRelation (head field) <;> cases e.hasColumn (head field) <;> rfl

theorem relations_ofFields (e : Entity ρ) (fields : List String) :
    (ofFields e fields).relations = gathered e.hasRelation fields := by
  rw [gathered, distinct, List.foldl_filter, List.foldl_map]
  exact (List.foldl_hom relations fun s field => (relations_add s field).symm).symm

theorem columns_ofFields (e : Entity ρ) (fields : List String) : (ofFields e fields).columns =
    gathered (fun name => e.hasColumn name && !e.hasRelation name) fields := by
  rw [gathered, distinct, List.foldl_filter, List.foldl_map]
  exact (List.foldl_hom columns fun s field => (columns_add s field).symm).symm

/-! ## Declared names -/

/-- Every relation and every column of a selection is declared. -/
structure Declared (s : Selection) (e : Entity ρ) : Prop where
  relations : ∀ name ∈ s.relations, e.hasRelation name = true
  columns : ∀ name ∈ s.columns, e.hasColumn name = true

theorem declared_ofFields (e : Entity ρ) (fields : List String) : (ofFields e fields).Declared e where
  relations name hname := by
    rw [relations_ofFields] at hname
    exact (mem_gathered.1 hname).2
  columns name hname := by
    rw [columns_ofFields] at hname
    exact (Bool.and_eq_true_iff.1 (mem_gathered.1 hname).2).1

/-! ## Columns to deliver -/

theorem select_eq_none_iff : s.select e = none ↔ s.columns = [] := by
  rw [select]
  cases s.columns <;> simp

/-- The columns to deliver, if there is a restriction, are the key column and then what is asked for. -/
theorem of_select_eq_some {names : List String} (h : s.select e = some names) :
    names.Nodup ∧ names.head? = some e.keyColumn ∧ ∀ n, n ∈ names ↔ n = e.keyColumn ∨ n ∈ s.columns := by
  rw [select] at h
  split at h
  · cases h
  · cases h
    refine ⟨nodup_foldl_addOnce (List.nodup_singleton _) _, ?_, fun n => ?_⟩
    · rw [foldl_addOnce]
      rfl
    · rw [mem_foldl_addOnce, List.mem_singleton]

/-- A store is asked to deliver declared columns only. -/
theorem Declared.select (h : s.Declared e) : ∀ columns ∈ s.select e, ∀ c ∈ columns, e.hasColumn c = true := by
  intro columns hcolumns c hc
  rcases ((of_select_eq_some hcolumns).2.2 c).1 hc with rfl | hc
  · exact e.hasColumn_keyColumn
  · exact h.columns c hc

end ReadThrough.Selection
