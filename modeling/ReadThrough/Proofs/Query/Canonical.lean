import ReadThrough.Newsroom
import ReadThrough.Proofs.Query.Selection
import ReadThrough.Proofs.Text.Blank
/-!
# Selections are canonical

A field names one thing, which can be said without taking the field apart (`Selection.head_eq_iff`). A selection is what
its fields name, in order of first mention, and nothing else is (`Selection.ofFields_eq_iff`). More fields only add to
it (`Selection.relations_append`, `Selection.columns_append`), and the names that it holds select the same again
(`Selection.ofFields_of_filter`). All of this together is `Selection.canonical`.
-/

namespace ReadThrough.Selection

attribute [ext] Selection

variable {ρ : Type} {e : Entity ρ} {s : Selection} {fields : List String} {field name : String}

/-! ## What a field names -/

/-- A field is a name between blanks, with nothing behind it or a point and anything. The name itself has no point, and
no blanks at its ends. -/
def Names (field name : String) : Prop :=
  Bare name.toList ∧ '.' ∉ name.toList ∧ ∃ before after rest,
    field.toList = before ++ name.toList ++ after ++ rest ∧ (∀ c ∈ before ++ after, isBlank c = true) ∧
      ∀ c ∈ rest.head?, c = '.'

theorem names_head (field : String) : Names field (head field) := by
  have hname : trimBlanks (field.toList.takeWhile (· ≠ '.')) = (head field).toList := String.toList_ofList.symm
  obtain ⟨hbare, before, after, hpath, hblank⟩ := trimBlanks_eq_iff.1 hname
  refine ⟨hbare, ?_, before, after, field.toList.dropWhile (· ≠ '.'), ?_, hblank, ?_⟩
  · intro hpoint
    have hmem : '.' ∈ field.toList.takeWhile (· ≠ '.') := by
      rw [hpath]
      exact List.mem_append_left _ (List.mem_append_right _ hpoint)
    simpa using List.mem_takeWhile_imp hmem
  · rw [← hpath, List.takeWhile_append_dropWhile]
  · intro c hc
    have hfirst := List.head?_dropWhile_not (· ≠ '.') field.toList
    rw [hc] at hfirst
    simpa using hfirst

theorem head_eq_of_names (h : Names field name) : head field = name := by
  obtain ⟨hbare, hpoint, before, after, rest, hfield, hblank, hrest⟩ := h
  have hpath : ∀ c ∈ before ++ name.toList ++ after, decide (c ≠ '.') = true := by
    intro c hc
    refine decide_eq_true ?_
    rintro rfl
    have hmem : '.' ∈ before ++ after := by
      simp only [List.mem_append] at hc ⊢
      tauto
    exact absurd (hblank _ hmem) (by decide)
  have hstop : rest.takeWhile (· ≠ '.') = [] := by
    cases rest with
    | nil => rfl
    | cons c rest => rw [hrest c rfl, List.takeWhile_cons_of_neg (by decide)]
  rw [head, hfield, List.takeWhile_append_of_pos hpath, hstop, List.append_nil,
    trimBlanks_eq_iff.2 ⟨hbare, before, after, rfl, hblank⟩, String.ofList_toList]

theorem head_eq_iff : head field = name ↔ Names field name :=
  ⟨fun h => h ▸ names_head field, head_eq_of_names⟩

theorem names_eq_head : Names = fun field name => head field = name := by
  funext field name
  exact propext head_eq_iff.symm

/-- The head of a field is its own head. -/
theorem head_head (field : String) : head (head field) = head field := by
  obtain ⟨hbare, hpoint, -⟩ := names_head field
  exact head_eq_of_names ⟨hbare, hpoint, [], [], [], by simp, nofun, nofun⟩

/-! ## What fields select -/

/-- What is selected by fields: the declared relations that they name, and the declared columns that they name and that
are no relations as well. -/
structure IsSelection (e : Entity ρ) (fields : List String) (s : Selection) : Prop where
  relations : FirstMentions Names fields (· ∈ e.relations) s.relations
  columns : FirstMentions Names fields (fun n => (n = e.keyColumn ∨ n ∈ e.columns) ∧ n ∉ e.relations) s.columns

theorem isSelection_ofFields (e : Entity ρ) (fields : List String) : IsSelection e fields (ofFields e fields) where
  relations := by
    have hdeclared : (· ∈ e.relations) = fun n => e.hasRelation n = true := by
      funext n
      simp [Entity.hasRelation]
    rw [names_eq_head, hdeclared, relations_ofFields]
    exact firstMentions_distinct head e.hasRelation fields
  columns := by
    have hdeclared : (fun n => (n = e.keyColumn ∨ n ∈ e.columns) ∧ n ∉ e.relations) =
        fun n => (e.hasColumn n && !e.hasRelation n) = true := by
      funext n
      simp [Entity.hasColumn, Entity.hasRelation]
    rw [names_eq_head, hdeclared, columns_ofFields]
    exact firstMentions_distinct head _ fields

theorem IsSelection.eq {t : Selection} (hs : IsSelection e fields s) (ht : IsSelection e fields t) : s = t := by
  have hone : ∀ field a b, Names field a → Names field b → a = b := fun field a b ha hb =>
    (head_eq_of_names ha).symm.trans (head_eq_of_names hb)
  exact Selection.ext (hs.relations.eq hone ht.relations) (hs.columns.eq hone ht.columns)

theorem ofFields_eq_iff : ofFields e fields = s ↔ IsSelection e fields s := by
  constructor
  · rintro rfl
    exact isSelection_ofFields e fields
  · exact fun hs => (isSelection_ofFields e fields).eq hs

theorem IsSelection.disjoint (h : IsSelection e fields s) : s.relations.Disjoint s.columns :=
  fun n hrelation hcolumn => ((h.columns.mem_iff n).1 hcolumn).1.2 ((h.relations.mem_iff n).1 hrelation).1

/-! ## More fields -/

theorem relations_append (e : Entity ρ) (a b : List String) : (ofFields e (a ++ b)).relations =
    (ofFields e a).relations ++ (ofFields e b).relations.filter (· ∉ (ofFields e a).relations) := by
  simp only [relations_ofFields]
  exact gathered_append _ a b

theorem columns_append (e : Entity ρ) (a b : List String) : (ofFields e (a ++ b)).columns =
    (ofFields e a).columns ++ (ofFields e b).columns.filter (· ∉ (ofFields e a).columns) := by
  simp only [columns_ofFields]
  exact gathered_append _ a b

/-! ## Selected names as fields -/

/-- A name that is selected names itself. -/
theorem head_of_mem_gathered {test : String → Bool} (h : name ∈ gathered test fields) : head name = name := by
  obtain ⟨⟨field, -, rfl⟩, -⟩ := mem_gathered.1 h
  exact head_head field

theorem hasRelation_of_mem_columns (h : name ∈ (ofFields e fields).columns) : e.hasRelation name = false := by
  rw [columns_ofFields] at h
  simpa using (Bool.and_eq_true_iff.1 (mem_gathered.1 h).2).2

/-- The selected relations and columns select the same again, whichever way they are put into one list. -/
theorem ofFields_of_filter {names : List String}
    (hrelations : names.filter e.hasRelation = (ofFields e fields).relations)
    (hcolumns : (names.filter fun n => !e.hasRelation n) = (ofFields e fields).columns) :
    ofFields e names = ofFields e fields := by
  have hselected := isSelection_ofFields e fields
  have hheads : names.map head = names := by
    refine (List.map_congr_left fun n hn => ?_).trans (List.map_id _)
    cases hrelation : e.hasRelation n with
    | true =>
      have hmem : n ∈ names.filter e.hasRelation := List.mem_filter.2 ⟨hn, hrelation⟩
      rw [hrelations, relations_ofFields] at hmem
      exact head_of_mem_gathered hmem
    | false =>
      have hmem : n ∈ names.filter fun n => !e.hasRelation n := List.mem_filter.2 ⟨hn, by rw [hrelation]; rfl⟩
      rw [hcolumns, columns_ofFields] at hmem
      exact head_of_mem_gathered hmem
  have hdeclared : (names.filter fun n => e.hasColumn n && !e.hasRelation n) = (ofFields e fields).columns := by
    rw [← List.filter_filter, hcolumns]
    exact List.filter_eq_self.2 (declared_ofFields e fields).columns
  refine Selection.ext ?_ ?_
  · rw [relations_ofFields, gathered, hheads, hrelations]
    exact distinct_eq_self hselected.relations.nodup
  · rw [columns_ofFields, gathered, hheads, hdeclared]
    exact distinct_eq_self hselected.columns.nodup

theorem filter_hasRelation (e : Entity ρ) (fields : List String) :
    (ofFields e fields).relations.filter e.hasRelation = (ofFields e fields).relations ∧
      (ofFields e fields).columns.filter e.hasRelation = [] := by
  refine ⟨List.filter_eq_self.2 (declared_ofFields e fields).relations, ?_⟩
  exact List.filter_eq_nil_iff.2 fun n hn => Bool.eq_false_iff.1 (hasRelation_of_mem_columns hn)

theorem filter_not_hasRelation (e : Entity ρ) (fields : List String) :
    ((ofFields e fields).relations.filter fun n => !e.hasRelation n) = [] ∧
      ((ofFields e fields).columns.filter fun n => !e.hasRelation n) = (ofFields e fields).columns := by
  constructor
  · exact List.filter_eq_nil_iff.2 fun n hn => by simp [(declared_ofFields e fields).relations n hn]
  · exact List.filter_eq_self.2 fun n hn => by simp [hasRelation_of_mem_columns hn]

theorem ofFields_relations_append_columns (e : Entity ρ) (fields : List String) :
    ofFields e ((ofFields e fields).relations ++ (ofFields e fields).columns) = ofFields e fields := by
  obtain ⟨hr, hc⟩ := filter_hasRelation e fields
  obtain ⟨hr', hc'⟩ := filter_not_hasRelation e fields
  refine ofFields_of_filter ?_ ?_
  · rw [List.filter_append, hr, hc, List.append_nil]
  · rw [List.filter_append, hr', hc', List.nil_append]

theorem ofFields_columns_append_relations (e : Entity ρ) (fields : List String) :
    ofFields e ((ofFields e fields).columns ++ (ofFields e fields).relations) = ofFields e fields := by
  obtain ⟨hr, hc⟩ := filter_hasRelation e fields
  obtain ⟨hr', hc'⟩ := filter_not_hasRelation e fields
  refine ofFields_of_filter ?_ ?_
  · rw [List.filter_append, hr, hc, List.nil_append]
  · rw [List.filter_append, hr', hc', List.append_nil]

/-! ## Together -/

/-- Selections are canonical: more fields add what has not been asked for, the names are those that the fields mention
first, no name is asked for twice, and what is selected selects itself. The columns to deliver begin with the key column
and are otherwise those asked for. Nothing is demanded of the declared names, since one with a point in it or blanks at
its ends is never selected. -/
theorem canonical (e : Entity ρ) (a b : List String) :
    (ofFields e (a ++ b)).relations =
        (ofFields e a).relations ++ (ofFields e b).relations.filter (· ∉ (ofFields e a).relations) ∧
      (ofFields e (a ++ b)).columns =
        (ofFields e a).columns ++ (ofFields e b).columns.filter (· ∉ (ofFields e a).columns) ∧
      (∀ s, ofFields e a = s ↔ IsSelection e a s) ∧
      (ofFields e a).relations.Disjoint (ofFields e a).columns ∧
      ofFields e ((ofFields e a).relations ++ (ofFields e a).columns) = ofFields e a ∧
      ofFields e ((ofFields e a).columns ++ (ofFields e a).relations) = ofFields e a ∧
      ((ofFields e a).select e = none ↔ (ofFields e a).columns = []) ∧
      ∀ names, (ofFields e a).select e = some names → names.Nodup ∧ names.head? = some e.keyColumn ∧
        ∀ n, n ∈ names ↔ n = e.keyColumn ∨ n ∈ (ofFields e a).columns :=
  ⟨relations_append e a b, columns_append e a b, fun _ => ofFields_eq_iff, (isSelection_ofFields e a).disjoint,
    ofFields_relations_append_columns e a, ofFields_columns_append_relations e a, select_eq_none_iff,
    fun _ => of_select_eq_some⟩

/-- A name that is a column and a relation, blanks around names, paths, and names that nothing declares. -/
theorem canonical_overlapping : ∃ e : Entity Newsroom.Item, "author" ∈ e.relations ∧ "author" ∈ e.columns ∧
    ∃ s, ofFields e ["\u3000author .name", "title", "tags.label", " id\n", "author", "Title", ".title", "title.a.b"] =
        s ∧
      s.relations = ["author", "tags"] ∧ s.columns = ["title", "id"] ∧ s.select e = some ["id", "title"] ∧
      ["id", "title"].Nodup ∧ ["id", "title"].head? = some e.keyColumn ∧
      ∀ n, n ∈ ["id", "title"] ↔ n = e.keyColumn ∨ n ∈ s.columns := by
  refine ⟨{ Newsroom.articles with columns := ["title", "author"] }, by decide, by decide, _, rfl, rfl, rfl, rfl, ?_⟩
  exact (canonical _ _ []).2.2.2.2.2.2.2 _ rfl

end ReadThrough.Selection
