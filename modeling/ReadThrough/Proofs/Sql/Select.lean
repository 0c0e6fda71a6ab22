import Mathlib.Algebra.Group.Nat.Defs
import Mathlib.Data.List.Basic
import ReadThrough.Proofs.Sql.Statement
import ReadThrough.Proofs.Store.Options
import ReadThrough.Sql.Select
/-!
# What a query is made of

A query that names only what is declared sends its values in the order of its parts
(`Select.binds_statement`), and each piece of its text begins with a fixed word and goes on with what the
mapping brings (`Select.Declared.ownText`). It always orders by the key column (`exists_keyColumn_mem`).
-/

namespace ReadThrough.Sql

variable {ρ : Type} {m : Mapping ρ}

/-! ## Numbers of rows -/

/-- A number of rows is sent as it is, or as the greatest number that the database knows. -/
theorem clampCount_eq (n : UInt64) : clampCount n = Int64.ofNat (min n.toNat (2 ^ 63 - 1)) := by
  have hmax : Int64.maxValue.toUInt64.toNat = 2 ^ 63 - 1 := rfl
  unfold clampCount
  split
  · rename_i h
    rw [UInt64.le_iff_toNat_le, hmax] at h
    rw [Nat.min_eq_left h, ← UInt64.toInt64_ofNat', UInt64.ofNat_toNat]
  · rename_i h
    rw [UInt64.le_iff_toNat_le, hmax] at h
    rw [Nat.min_eq_right (by omega)]
    rfl

/-! ## Orders -/

/-- Every query orders by the key column. -/
theorem exists_keyColumn_mem (e : Entity ρ) (order : List Order) :
    ∃ x ∈ withTiebreak e order, x.column = e.keyColumn := by
  unfold withTiebreak
  split
  · exact ⟨e.natural, List.mem_append_right _ List.mem_cons_self, rfl⟩
  · rename_i h
    simpa using h

theorem mem_withTiebreak {e : Entity ρ} {order : List Order} {x : Order} (h : x ∈ withTiebreak e order) :
    x ∈ order ∨ x = e.natural := by
  unfold withTiebreak at h
  split at h
  · simpa using h
  · exact .inl h

theorem declared_withTiebreak {e : Entity ρ} {o : FindOptions} (ho : o.Declared e) :
    ∀ x ∈ withTiebreak e o.order, e.hasColumn x.column = true := by
  intro x hx
  rcases mem_withTiebreak hx with hx | rfl
  · exact ho.order x hx
  · exact e.hasColumn_keyColumn

/-! ## Relations -/

namespace Mapping

/-- The expression that follows a relation, beside the name of the relation. -/
def follow (m : Mapping ρ) (name : String) : Except StoreError (String × String) :=
  match m.relation name with
  | some expression => .ok (name, expression)
  | none => .error (.invalidInput (.unmappedRelation m.entity.segment name))

theorem mapM_follow {names : List String} (h : ∀ name ∈ names, (m.relation name).isSome = true) :
    ∃ relations, names.mapM m.follow = .ok relations ∧
      ∀ r ∈ relations, r.1 ∈ names ∧ m.relation r.1 = some r.2 := by
  induction names with
  | nil => exact ⟨[], rfl, nofun⟩
  | cons name names ih =>
    obtain ⟨expression, hexpression⟩ := Option.isSome_iff_exists.1 (h name List.mem_cons_self)
    obtain ⟨relations, hrelations, hall⟩ := ih fun n hn => h n (List.mem_cons_of_mem _ hn)
    refine ⟨(name, expression) :: relations, ?_, ?_⟩
    · rw [List.mapM_cons, hrelations, follow, hexpression]
      rfl
    · rintro r (_ | ⟨_, hr⟩)
      · exact ⟨List.mem_cons_self, hexpression⟩
      · exact ⟨List.mem_cons_of_mem _ (hall r hr).1, (hall r hr).2⟩

theorem mapM_follow_error {names : List String} (h : ∃ name ∈ names, m.relation name = none) :
    ∃ name ∈ names, m.relation name = none ∧
      names.mapM m.follow = .error (.invalidInput (.unmappedRelation m.entity.segment name)) := by
  induction names with
  | nil => simp at h
  | cons name names ih =>
    cases hname : m.relation name with
    | none =>
      refine ⟨name, List.mem_cons_self, hname, ?_⟩
      rw [List.mapM_cons, follow, hname]
      rfl
    | some expression =>
      have hrest : ∃ name ∈ names, m.relation name = none := by simpa [hname] using h
      obtain ⟨bad, hbad, hnone, heq⟩ := ih hrest
      refine ⟨bad, List.mem_cons_of_mem _ hbad, hnone, ?_⟩
      rw [List.mapM_cons, follow, hname, heq]
      rfl

end Mapping

namespace Select

variable {o : FindOptions}

theorem rows_eq (m : Mapping ρ) (o : FindOptions) : rows m o = (do
    o.check m.entity
    let relations ← o.relations.mapM m.follow
    return ofOptions m (.rows relations) o) := rfl

/-! ## What a query is made of -/

/-- Every name in a query is that of a declared column or relation, and every expression is the mapping's
own. -/
structure Declared (q : Select) (m : Mapping ρ) : Prop where
  conditions : ∀ c ∈ q.conditions, m.entity.hasColumn c.column = true
  order : ∀ x ∈ q.order, m.entity.hasColumn x.column = true
  relations : ∀ relations, q.projection = .rows relations →
    ∀ r ∈ relations, m.entity.hasRelation r.1 = true ∧ m.relation r.1 = some r.2

theorem declared_ofOptions {projection : Projection} (ho : o.Declared m.entity)
    (hprojection : ∀ relations, projection = .rows relations →
      ∀ r ∈ relations, m.entity.hasRelation r.1 = true ∧ m.relation r.1 = some r.2) :
    (ofOptions m projection o).Declared m where
  conditions := ho.filter
  order := declared_withTiebreak ho
  relations := hprojection

/-- The values that a query sends. -/
def values (q : Select) : List Value :=
  q.conditions.map (·.value) ++ q.limit.toList.map .int ++ q.offset.toList.map .int

end Select

theorem binds_conditionPieces (f : Filter) :
    Statement.binds (conditionPieces f) = f.map fun c => .value c.value := by
  induction f with
  | nil => rfl
  | cons c f ih =>
    have hcons : conditionPieces (c :: f) =
        [.text s!" AND t.{c.column} {c.comparison.sql} ", .bind (.value c.value)] ++ conditionPieces f := rfl
    rw [hcons, Statement.binds_append, ih]
    rfl

theorem binds_countPieces (word : String) (n : Option Int64) :
    Statement.binds (countPieces word n) = n.toList.map fun n => .value (.int n) := by
  cases n <;> rfl

/-- A query sends its values in the order of its parts. -/
theorem Select.binds_statement (m : Mapping ρ) (q : Select) :
    (q.statement m).binds = q.values.map .value := by
  simp [statement, binds_conditionPieces, binds_countPieces, values, fromTable, Statement.binds,
    Function.comp_def]

/-! ## The text of a query -/

/-- The fixed words of queries. -/
def words : List String :=
  ["SELECT ", "SELECT COUNT(*)", "t.", "t.*", " AS key", ", (", ") AS ", " FROM ", " t WHERE 1 = 1",
    " AND t.", " ", "=", ">", " ORDER BY ", ", ", "ASC", "DESC", " LIMIT ", " OFFSET "]

/-- What a mapping brings into the text of a query. -/
inductive Own (m : Mapping ρ) : String → Prop where
  | word {w : String} : w ∈ words → Own m w
  | table : Own m m.table
  | column {c : String} : m.entity.hasColumn c = true → Own m c
  | relation {r : String} : m.entity.hasRelation r = true → Own m r
  | expression {r x : String} : m.entity.hasRelation r = true → m.relation r = some x → Own m x

/-- No name of a mapping and no expression has a dollar sign. -/
structure Mapping.Undollared (m : Mapping ρ) : Prop where
  table : '$' ∉ m.table.toList
  keyColumn : '$' ∉ m.entity.keyColumn.toList
  columns : ∀ c ∈ m.entity.columns, '$' ∉ c.toList
  relations : ∀ r ∈ m.entity.relations, '$' ∉ r.toList
  expressions : ∀ r ∈ m.entity.relations, ∀ x ∈ m.relation r, '$' ∉ x.toList

theorem Own.dollar_notMem (hm : m.Undollared) {s : String} (h : Own m s) : '$' ∉ s.toList := by
  cases h with
  | word hw => exact (by decide : ∀ w ∈ words, '$' ∉ w.toList) s hw
  | table => exact hm.table
  | column hc =>
    rcases Bool.or_eq_true_iff.1 hc with hkey | hc
    · rw [of_decide_eq_true hkey]
      exact hm.keyColumn
    · exact hm.columns s (List.contains_iff_mem.1 hc)
  | relation hr => exact hm.relations s (List.contains_iff_mem.1 hr)
  | expression hr hx => exact hm.expressions _ (List.contains_iff_mem.1 hr) s hx

/-- Each piece of the text of a statement begins with a fixed word and goes on with the mapping's own. -/
def OwnText (m : Mapping ρ) (s : Statement) : Prop :=
  ∀ t, Piece.text t ∈ s → ∃ w ∈ words, ∃ rest, t = w ++ rest ∧ MadeOf (Own m) rest

namespace OwnText

theorem one {w rest : String} (hw : w ∈ words) (h : MadeOf (Own m) rest) :
    OwnText m [.text (w ++ rest)] := by
  intro t ht
  obtain rfl : t = w ++ rest := by simpa using ht
  exact ⟨w, hw, rest, rfl, h⟩

theorem bind {b : Bind} {s : Statement} (h : OwnText m s) : OwnText m (s ++ [.bind b]) :=
  fun t ht => h t (by simpa using ht)

theorem append {s s' : Statement} (h : OwnText m s) (h' : OwnText m s') : OwnText m (s ++ s') :=
  fun t ht => (List.mem_append.1 ht).elim (h t) (h' t)

theorem madeOf {s : Statement} (h : OwnText m s) {t : String} (ht : Piece.text t ∈ s) :
    MadeOf (Own m) t := by
  obtain ⟨w, hw, rest, rfl, hrest⟩ := h t ht
  exact (MadeOf.one (.word hw)).append hrest

theorem unmarked (hm : m.Undollared) {s : Statement} (h : OwnText m s) : s.Unmarked := by
  intro t ht
  constructor
  · intro hdollar
    obtain ⟨parts, rfl, hparts⟩ := h.madeOf ht
    obtain ⟨p, hp, hdollar⟩ := List.mem_flatMap.1 (String.toList_join ▸ hdollar)
    exact (hparts p hp).dollar_notMem hm hdollar
  · obtain ⟨w, hw, rest, rfl, -⟩ := h t ht
    have hwords : ∀ w ∈ words, w.toList.head?.map Char.isDigit = some false := by decide
    obtain ⟨c, hc, hdigit⟩ := Option.map_eq_some_iff.1 (hwords w hw)
    intro c' hc'
    rw [String.toList_append, List.head?_append, hc] at hc'
    obtain rfl := Option.some.inj hc'
    exact hdigit

end OwnText

/-- A fixed word is of the mapping's own text. -/
theorem madeOf_word {w : String} (h : w ∈ words) : MadeOf (Own m) w := .one (.word h)

theorem ownText_conditionPieces {f : Filter} (h : ∀ c ∈ f, m.entity.hasColumn c.column = true) :
    OwnText m (conditionPieces f) := by
  induction f with
  | nil => nofun
  | cons c f ih =>
    have hcomparison : c.comparison.sql ∈ words := by cases c.comparison <;> decide
    have hcolumn : MadeOf (Own m) c.column := .one (.column (h c List.mem_cons_self))
    have hblank : MadeOf (Own m) " " := madeOf_word (by decide)
    have hone : OwnText m [.text (" AND t." ++ (c.column ++ " " ++ c.comparison.sql ++ " "))] :=
      .one (by decide) (((hcolumn.append hblank).append (madeOf_word hcomparison)).append hblank)
    have htext : s!" AND t.{c.column} {c.comparison.sql} " =
        " AND t." ++ (c.column ++ " " ++ c.comparison.sql ++ " ") := by
      simp [toString, String.append_assoc]
    have hrest := ih fun c' hc' => h c' (List.mem_cons_of_mem _ hc')
    rw [← htext] at hone
    exact hone.bind.append hrest

theorem ownText_countPieces {word : String} (h : s!" {word} " ∈ words) (n : Option Int64) :
    OwnText m (countPieces word n) := by
  cases n with
  | none => nofun
  | some n =>
    have hone := OwnText.one (m := m) h .nil
    rw [String.append_empty] at hone
    exact hone.bind

theorem madeOf_projection {p : Projection} (h : ∀ relations, p = .rows relations →
    ∀ r ∈ relations, m.entity.hasRelation r.1 = true ∧ m.relation r.1 = some r.2) :
    MadeOf (Own m) (p.text m) := by
  have ht : MadeOf (Own m) "t." := madeOf_word (by decide)
  cases p with
  | keys =>
    have hkey : MadeOf (Own m) m.entity.keyColumn := .one (.column m.entity.hasColumn_keyColumn)
    exact (ht.append hkey).append (madeOf_word (by decide))
  | rows relations =>
    have hall := h relations rfl
    have hopen : MadeOf (Own m) ", (" := madeOf_word (by decide)
    have hclose : MadeOf (Own m) ") AS " := madeOf_word (by decide)
    -- The induction is on the relations that are left, behind any text so far.
    have hfold : ∀ (relations : List (String × String)) (s : String), MadeOf (Own m) s →
        (∀ r ∈ relations, m.entity.hasRelation r.1 = true ∧ m.relation r.1 = some r.2) →
        MadeOf (Own m) (relations.foldl (fun s r => s ++ s!", ({r.2}) AS {r.1}") s) := by
      intro relations
      induction relations with
      | nil => exact fun s hs _ => hs
      | cons r relations ih =>
        intro s hs hr
        obtain ⟨hdeclared, hexpression⟩ := hr r List.mem_cons_self
        refine ih _ (hs.append ?_) fun r' hr' => hr r' (List.mem_cons_of_mem _ hr')
        exact ((hopen.append (.one (.expression hdeclared hexpression))).append hclose).append
          (.one (.relation hdeclared))
    exact hfold relations "t.*" (madeOf_word (by decide)) hall

theorem madeOf_order {order : List Order} (h : ∀ x ∈ order, m.entity.hasColumn x.column = true) :
    MadeOf (Own m) (orderText order) := by
  have hcomma : MadeOf (Own m) ", " := madeOf_word (by decide)
  have ht : MadeOf (Own m) "t." := madeOf_word (by decide)
  have hblank : MadeOf (Own m) " " := madeOf_word (by decide)
  refine hcomma.intercalate fun s hs => ?_
  obtain ⟨x, hx, rfl⟩ := List.mem_map.1 hs
  have hcolumn : MadeOf (Own m) x.column := .one (.column (h x hx))
  have hdirection : x.direction.sql ∈ words := by cases x.direction <;> decide
  exact ((ht.append hcolumn).append hblank).append (madeOf_word hdirection)

theorem ownText_fromTable (m : Mapping ρ) : OwnText m [fromTable m] := by
  have hrest : MadeOf (Own m) (m.table ++ " t WHERE 1 = 1") :=
    (MadeOf.one .table).append (madeOf_word (by decide))
  have htext : s!" FROM {m.table} t WHERE 1 = 1" = " FROM " ++ (m.table ++ " t WHERE 1 = 1") := by
    simp [toString, String.append_assoc]
  rw [fromTable, htext]
  exact .one (by decide) hrest

theorem ownText_count {f : Filter} (h : ∀ c ∈ f, m.entity.hasColumn c.column = true) :
    OwnText m ([.text "SELECT COUNT(*)", fromTable m] ++ conditionPieces f) := by
  have hcount : OwnText m [.text ("SELECT COUNT(*)" ++ "")] := .one (by decide) .nil
  exact (hcount.append (ownText_fromTable m)).append (ownText_conditionPieces h)

/-- The text of a query of declared names is the mapping's own. -/
theorem Select.Declared.ownText {q : Select} (h : q.Declared m) : OwnText m (q.statement m) := by
  have hselect : OwnText m [.text ("SELECT " ++ q.projection.text m)] :=
    .one (by decide) (madeOf_projection h.relations)
  have horder : OwnText m [.text (" ORDER BY " ++ orderText q.order)] :=
    .one (by decide) (madeOf_order h.order)
  have hhead := (hselect.append (ownText_fromTable m)).append (ownText_conditionPieces h.conditions)
  have hlimit : OwnText m (countPieces "LIMIT" q.limit) := ownText_countPieces (by decide) q.limit
  have hoffset : OwnText m (countPieces "OFFSET" q.offset) := ownText_countPieces (by decide) q.offset
  exact ((hhead.append horder).append hlimit).append hoffset

end ReadThrough.Sql
