import Mathlib.Data.List.Basic
import ReadThrough.Newsroom.Tables
import ReadThrough.Proofs.Sql.Select
/-!
# The text of a statement never carries a caller's data

An inquiry is refused exactly if it names what is not declared, or asks for a relation that the mapping
cannot follow. Otherwise the text of its statement is made of fixed words, names and expressions of the
mapping and placeholders, and what a caller compares with, takes and skips is sent apart from it, in that
order. Two inquiries that differ in such values only have the same text (`Inquiry.statement_free`).
-/

namespace ReadThrough

/-- Two options that differ in the values of their conditions and in how many rows they skip and take. -/
structure FindOptions.Alike (o o' : FindOptions) : Prop where
  filter : o.filter.map (fun c => (c.column, c.comparison)) =
    o'.filter.map fun c => (c.column, c.comparison)
  order : o.order = o'.order
  relations : o.relations = o'.relations
  take : o.take.isSome = o'.take.isSome
  skip : 0 < o.skip ↔ 0 < o'.skip

namespace FindOptions.Alike

variable {ρ : Type} {o o' : FindOptions}

/-- The columns of filters that differ in values only are the same. -/
theorem map_column (h : o.Alike o') : o.filter.map (·.column) = o'.filter.map (·.column) := by
  have hcolumns := congrArg (List.map Prod.fst) h.filter
  rwa [List.map_map, List.map_map] at hcolumns

theorem check (h : o.Alike o') (e : Entity ρ) : o.check e = o'.check e := by
  rw [FindOptions.check, FindOptions.check, columns, columns, h.map_column, h.order, h.relations]

theorem check_filter (h : o.Alike o') (e : Entity ρ) :
    FindOptions.check { filter := o.filter } e = FindOptions.check { filter := o'.filter } e := by
  rw [FindOptions.check, FindOptions.check, columns, columns, h.map_column]

end FindOptions.Alike

namespace Sql

variable {ρ : Type} {m : Mapping ρ} {o o' : FindOptions}

/-! ## The same outline -/

theorem outline_conditionPieces (h : o.Alike o') :
    Statement.outline (conditionPieces o.filter) = Statement.outline (conditionPieces o'.filter) := by
  have hpairs : ∀ f : Filter, Statement.outline (conditionPieces f) =
      (f.map fun c => (c.column, c.comparison)).flatMap fun p =>
        [some s!" AND t.{p.1} {p.2.sql} ", none] := by
    intro f
    rw [Statement.outline, conditionPieces, List.map_flatMap, List.flatMap_map]
    rfl
  rw [hpairs, hpairs, h.filter]

theorem outline_countPieces (word : String) (b : Bool) {n : Option Int64} (h : n.isSome = b) :
    Statement.outline (countPieces word n) = if b then [some s!" {word} ", none] else [] := by
  subst h
  cases n <;> rfl

/-- Options that differ in values only become queries that differ in values only. -/
theorem outline_statement (h : o.Alike o') (p : Projection) :
    ((Select.ofOptions m p o).statement m).outline = ((Select.ofOptions m p o').statement m).outline := by
  have hlimit : ∀ o : FindOptions, (Select.ofOptions m p o).limit.isSome = o.take.isSome :=
    fun o => Option.isSome_map
  have hoffset : ∀ o : FindOptions, (Select.ofOptions m p o).offset.isSome = decide (0 < o.skip) := by
    intro o
    rw [Select.ofOptions]
    split <;> simp [*]
  simp only [Select.statement, Statement.outline_append, outline_countPieces "LIMIT" _ (hlimit _),
    outline_countPieces "OFFSET" _ (hoffset _), h.take, h.skip]
  simp only [Select.ofOptions, outline_conditionPieces h, h.order]

/-! ## Inquiries -/

/-- What a store asks of a database: rows, their keys, or how many rows pass a filter. -/
inductive Inquiry where
  | rows
  | keys
  | count
  deriving DecidableEq, Repr

namespace Inquiry

/-- The statement of an inquiry. -/
def statement (m : Mapping ρ) (o : FindOptions) : Inquiry → Except StoreError Statement
  | .rows => (Select.rows m o).map (·.statement m)
  | .keys => (Select.keys m o).map (·.statement m)
  | .count => countStatement m o.filter

/-- An inquiry that names what is not declared, or a relation that the mapping cannot follow. -/
def Refused (m : Mapping ρ) (o : FindOptions) : Inquiry → Prop
  | .rows => ¬ o.Declared m.entity ∨ ∃ name ∈ o.relations, m.relation name = none
  | .keys => ¬ o.Declared m.entity
  | .count => ∃ c ∈ o.filter, m.entity.hasColumn c.column = false

/-- A number of rows, but for numbers that are too great. -/
def bounded (n : UInt64) : Value := .int (.ofNat (min n.toNat (2 ^ 63 - 1)))

/-- The values that an inquiry sends. -/
def values (o : FindOptions) : Inquiry → List Value
  | .rows | .keys => o.filter.map (·.value) ++ o.take.toList.map bounded ++
    if 0 < o.skip then [bounded o.skip] else []
  | .count => o.filter.map (·.value)

/-- What the text of an inquiry is made of. -/
def Part (m : Mapping ρ) (s : String) : Prop := Own m s ∨ ∃ n : Nat, s = "$" ++ toString n

/-- A statement whose text is free of what a caller says. -/
structure Free (m : Mapping ρ) (o : FindOptions) (i : Inquiry) (s : Statement) : Prop where
  text : MadeOf (Part m) s.text
  placeholders : placeholders s.text = (List.range' 1 s.binds.length).map toString
  binds : s.binds = (i.values o).map .value
  order : i ≠ .count → ∃ before order after, s.text = before ++ (" ORDER BY " ++ orderText order) ++ after ∧
    ∃ x ∈ order, x.column = m.entity.keyColumn

section

variable {q : Select} {i : Inquiry}

/-- What a query sends is what the options say. -/
theorem values_ofOptions (m : Mapping ρ) (p : Projection) (o : FindOptions) :
    (Select.ofOptions m p o).values = Inquiry.rows.values o := by
  have hbounded : ∀ n, Value.int (clampCount n) = bounded n := fun n => congrArg _ (clampCount_eq n)
  unfold Select.values Select.ofOptions values
  congr 1
  · cases o.take <;> simp [hbounded]
  · split <;> simp [hbounded]

theorem Free.of_ownText {s : Statement} (hm : m.Undollared) (hown : OwnText m s)
    (hbinds : s.binds = (i.values o).map .value)
    (horder : i ≠ .count → .text (" ORDER BY " ++ orderText (withTiebreak m.entity o.order)) ∈ s) :
    Free m o i s where
  text := by
    refine .textFrom (fun t ht => ?_) (fun n => .inr ⟨n, rfl⟩) 1
    obtain ⟨parts, heq, hparts⟩ := hown.madeOf ht
    exact ⟨parts, heq, fun p hp => .inl (hparts p hp)⟩
  placeholders := (hown.unmarked hm).placeholders_text
  binds := hbinds
  order := by
    intro hi
    obtain ⟨before, after, htext⟩ := Statement.exists_text_eq (horder hi)
    exact ⟨before, _, after, htext, exists_keyColumn_mem m.entity o.order⟩

theorem free_select (hm : m.Undollared) {p : Projection} (hi : i.values o = Inquiry.rows.values o)
    (h : (Select.ofOptions m p o).Declared m) : Free m o i ((Select.ofOptions m p o).statement m) := by
  refine .of_ownText hm h.ownText ?_ fun _ => ?_
  · rw [Select.binds_statement, values_ofOptions, hi]
  · simp [Select.statement, Select.ofOptions]

end

theorem statement_rows (ho : o.Declared m.entity)
    (hrelations : ∀ name ∈ o.relations, (m.relation name).isSome = true) :
    ∃ relations, Inquiry.rows.statement m o = .ok ((Select.ofOptions m (.rows relations) o).statement m) ∧
      (Select.ofOptions m (.rows relations) o).Declared m := by
  obtain ⟨relations, hmap, hall⟩ := Mapping.mapM_follow hrelations
  refine ⟨relations, ?_, Select.declared_ofOptions ho ?_⟩
  · rw [statement, Select.rows_eq, ho.check, hmap]
    rfl
  · rintro _ ⟨⟩ r hr
    exact ⟨ho.relations _ (hall r hr).1, (hall r hr).2⟩

theorem statement_keys (ho : o.Declared m.entity) :
    Inquiry.keys.statement m o = .ok ((Select.ofOptions m .keys o).statement m) := by
  rw [statement, Select.keys, ho.check]
  rfl

theorem statement_count (h : ∀ c ∈ o.filter, m.entity.hasColumn c.column = true) :
    Inquiry.count.statement m o =
      .ok ([.text "SELECT COUNT(*)", fromTable m] ++ conditionPieces o.filter) := by
  rw [statement, countStatement, (FindOptions.declared_filter h).check]
  rfl

/-- What is refused is refused as invalid. -/
theorem statement_of_refused {i : Inquiry} (h : i.Refused m o) :
    ∃ fault, i.statement m o = .error (.invalidInput fault) := by
  cases i with
  | rows =>
    by_cases ho : o.Declared m.entity
    · obtain ⟨name, _, _, heq⟩ := Mapping.mapM_follow_error (h.resolve_left (not_not_intro ho))
      refine ⟨.unmappedRelation m.entity.segment name, ?_⟩
      rw [statement, Select.rows_eq, ho.check, heq]
      rfl
    · obtain ⟨fault, heq⟩ := FindOptions.exists_check_eq ho
      refine ⟨fault, ?_⟩
      rw [statement, Select.rows, heq]
      rfl
  | keys =>
    obtain ⟨fault, heq⟩ := FindOptions.exists_check_eq h
    refine ⟨fault, ?_⟩
    rw [statement, Select.keys, heq]
    rfl
  | count =>
    obtain ⟨c, hc, hundeclared⟩ := h
    have ho : ¬ FindOptions.Declared { filter := o.filter } m.entity := by
      intro ho
      rw [ho.filter c hc] at hundeclared
      cases hundeclared
    obtain ⟨fault, heq⟩ := FindOptions.exists_check_eq ho
    refine ⟨fault, ?_⟩
    rw [statement, countStatement, heq]
    rfl

/-- What is not refused is asked, and the statement is free of what the caller says. -/
theorem free_of_not_refused (hm : m.Undollared) {i : Inquiry} (h : ¬ i.Refused m o) :
    ∃ s, i.statement m o = .ok s ∧ Free m o i s := by
  cases i with
  | rows =>
    obtain ⟨ho, hrelations⟩ := not_or.1 h
    obtain ⟨relations, heq, hdeclared⟩ := statement_rows (not_not.1 ho) fun name hname => by
      cases hnone : m.relation name with
      | none => exact absurd ⟨name, hname, hnone⟩ hrelations
      | some _ => rfl
    exact ⟨_, heq, free_select hm rfl hdeclared⟩
  | keys =>
    have ho := not_not.1 h
    exact ⟨_, statement_keys ho, free_select hm rfl (Select.declared_ofOptions ho nofun)⟩
  | count =>
    have hcolumns : ∀ c ∈ o.filter, m.entity.hasColumn c.column = true := by
      intro c hc
      by_contra hne
      exact h ⟨c, hc, Bool.not_eq_true _ ▸ hne⟩
    refine ⟨_, statement_count hcolumns, .of_ownText hm (ownText_count hcolumns) ?_ fun hne => ?_⟩
    · rw [Statement.binds_append, binds_conditionPieces, values, List.map_map]
      rfl
    · exact absurd rfl hne

/-- Options that differ in values only lead to one text. -/
theorem text_eq_of_alike (h : o.Alike o') (i : Inquiry) :
    (i.statement m o').map Statement.text = (i.statement m o).map Statement.text := by
  have htext : ∀ p, ((Select.ofOptions m p o').statement m).text =
      ((Select.ofOptions m p o).statement m).text :=
    fun p => (Statement.text_eq_of_outline (outline_statement h p)).symm
  cases i with
  | rows =>
    rw [statement, statement, Select.rows_eq, Select.rows_eq, ← h.check m.entity, ← h.relations]
    cases o.check m.entity with
    | error _ => rfl
    | ok _ =>
      cases o.relations.mapM m.follow with
      | error _ => rfl
      | ok relations => exact congrArg Except.ok (htext (.rows relations))
  | keys =>
    rw [statement, statement, Select.keys, Select.keys, ← h.check m.entity]
    cases o.check m.entity with
    | error _ => rfl
    | ok _ => exact congrArg Except.ok (htext .keys)
  | count =>
    rw [statement, statement, countStatement, countStatement, ← h.check_filter m.entity]
    cases FindOptions.check { filter := o.filter } m.entity with
    | error _ => rfl
    | ok _ =>
      refine congrArg Except.ok (Statement.text_eq_of_outline ?_)
      rw [Statement.outline_append, Statement.outline_append, outline_conditionPieces h]

/-- An inquiry is refused as invalid exactly if it names what is not declared, or a relation that the
mapping cannot follow; otherwise it is asked. The text of the statement is made of fixed words, of what the
mapping declares and of placeholders, which are numbered from one on; the values are sent apart from it,
those of the conditions first, then how many rows to take and to skip. Rows are ordered by key at last. The
text is the same whatever the values are. -/
theorem statement_free (hm : m.Undollared) (i : Inquiry) (o : FindOptions) :
    ((∃ fault, i.statement m o = .error (.invalidInput fault)) ↔ i.Refused m o) ∧
    (¬ i.Refused m o → ∃ s, i.statement m o = .ok s ∧ Free m o i s) ∧
    ∀ o', o.Alike o' → (i.statement m o').map Statement.text = (i.statement m o).map Statement.text := by
  refine ⟨⟨fun ⟨fault, herror⟩ => ?_, statement_of_refused⟩, free_of_not_refused hm,
    fun o' h => text_eq_of_alike h i⟩
  by_contra hok
  obtain ⟨s, heq, -⟩ := free_of_not_refused hm hok
  rw [heq] at herror
  cases herror

/-! ## The newsroom -/

theorem undollared_articleTable : Newsroom.articleTable.Undollared where
  table := by decide
  keyColumn := by decide
  columns := by decide
  relations := by decide
  expressions := by decide

/-- Options whose value looks like a part of a statement. -/
def hostile : FindOptions where
  filter := [{ column := "title", comparison := .eq, value := .text "$1; DROP TABLE articles" }]
  order := [{ column := "views", direction := .desc }]
  skip := 40
  take := some 20
  relations := ["category"]

theorem statement_free_articles : Newsroom.articleTable.Undollared ∧
    ∃ s, Inquiry.rows.statement Newsroom.articleTable hostile = .ok s ∧
      Free Newsroom.articleTable hostile .rows s := by
  have haccepted : ¬ Inquiry.rows.Refused Newsroom.articleTable hostile := by
    rintro (h | h)
    · exact h ⟨by decide, by decide, by decide⟩
    · revert h
      decide
  exact ⟨undollared_articleTable, (statement_free undollared_articleTable .rows hostile).2.1 haccepted⟩

end Inquiry

end Sql

end ReadThrough
