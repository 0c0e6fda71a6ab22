import ReadThrough.Proofs.Desk.Engine
import ReadThrough.Proofs.Paging.Cursor
import ReadThrough.Proofs.Paging.Limits
import ReadThrough.Proofs.Store.Options
import ReadThrough.Proofs.Store.Order
/-!
# Pages after a cursor

On the stock alone, a request for the rows after a cursor is answered with a page (`Engine.IsPage`): so
many rows at most, in the order of their keys, all of them in the category and after the row that the cursor
names, and none left out before the last (`Engine.perform_following`). That takes rows that hold their keys
in the key column, a category that is known, and a cursor whose row is there.
-/

namespace ReadThrough

variable {ρ α β : Type}

/-- The request for the rows after a cursor, if there is one, in place of any others. -/
def Request.following (r : Request) (after : Option String) (first : Option UInt32) : Request :=
  { r with ids := none, random := none, page := some (.cursor after first) }

/-- The cursor of a page, if the answer is a page after a cursor and has a row. -/
def Resolution.endCursor (x : Resolution ρ) : Option String := x.connection.bind (·.endCursor)

/-- A query goes on with what has been delivered. -/
theorem Query.run_andThen {g : Engine ρ} {p : Query ρ α} {f : α → Query ρ β} {s s' : Stock ρ} {a : α}
    (h : p.run.run g.answer s = (.ok a, s')) :
    (p >>= f).run.run g.answer s = (f a).run.run g.answer s' := by
  show (p.run >>= ExceptT.bindCont f).run g.answer s = _
  rw [Plan.run_bind, h]
  rfl

/-- A query ends with an error that has come up. -/
theorem Query.run_andThen_error {g : Engine ρ} {p : Query ρ α} {f : α → Query ρ β} {s s' : Stock ρ}
    {e : QueryError} (h : p.run.run g.answer s = (.error e, s')) :
    (p >>= f).run.run g.answer s = (.error e, s') := by
  show (p.run >>= ExceptT.bindCont f).run g.answer s = _
  rw [Plan.run_bind, h]
  rfl

namespace Engine

variable (g : Engine ρ)

/-! ## Categories -/

/-- The key of the category of a name. -/
def categoryKey? (s : Stock ρ) (name : String) : Option Key := do
  let resolver ← g.resolver
  let (e, t) ← g.table? s resolver.entity.kind
  let keys ← (t.findKeys e (resolver.options name)).toOption
  keys.head?

/-- Whether there is the category that a request names, if it names one, and rows have a column for it. -/
def Knows (s : Stock ρ) (category : Option String) : Prop :=
  ∀ name ∈ category, (∃ column, g.entity.categoryColumn = some column ∧ g.entity.hasColumn column = true) ∧
    (g.categoryKey? s name).isSome = true

/-- Whether a row is in the category that a request names, if it names one. -/
def InCategory (s : Stock ρ) (category : Option String) (row : ρ) : Prop :=
  ∀ name ∈ category, ∃ column k, g.entity.categoryColumn = some column ∧
    g.categoryKey? s name = some k ∧ g.entity.value row column = some k.toValue

variable {g} {s : Stock ρ}

/-- The keys that a resolver finds for a name. -/
def categoryKeys (g : Engine ρ) (s : Stock ρ) (c : CategoryResolver ρ) (name : String) :
    Except StoreError (List Key) :=
  (g.table? s c.entity.kind).elim (.error .notFound) fun (e, t) => t.findKeys e (c.options name)

/-- The key of a category is the first that is found for its name. -/
theorem categoryKey?_of_resolver {c : CategoryResolver ρ} (hresolver : g.resolver = some c) (name : String) :
    g.categoryKey? s name = (g.categoryKeys s c name).toOption.bind List.head? := by
  rw [categoryKey?, hresolver, categoryKeys]
  show (g.table? s c.entity.kind).bind _ = _
  cases g.table? s c.entity.kind <;> rfl

theorem categoryKey?_eq {c : CategoryResolver ρ} {e : Entity ρ} {t : Table ρ Unit} {name : String}
    {keys : List Key} (hresolver : g.resolver = some c) (htable : g.table? s c.entity.kind = some (e, t))
    (hkeys : t.findKeys e (c.options name) = .ok keys) : g.categoryKey? s name = keys.head? := by
  rw [categoryKey?_of_resolver hresolver, categoryKeys, htable]
  show (t.findKeys e (c.options name)).toOption.bind _ = _
  rw [hkeys]
  rfl

/-- The condition of a category passes the rows that are in it. -/
theorem accepts_category {name column : String} {k : Key} (hcolumn : g.entity.categoryColumn = some column)
    (hk : g.categoryKey? s name = some k) (row : ρ) :
    Filter.accepts [{ column, comparison := .eq, value := k.toValue }] g.entity row = true ↔
      g.InCategory s (some name) row := by
  constructor
  · intro hrow name' hname
    obtain rfl := Option.some.inj hname
    refine ⟨column, k, hcolumn, hk, ?_⟩
    cases hv : g.entity.value row column with
    | none => simp [Filter.accepts, Condition.holds, hv] at hrow
    | some v => simpa [Filter.accepts, Condition.holds, Comparison.holds, hv] using hrow
  · intro hrow
    obtain ⟨column', k', hcolumn', hk', hv⟩ := hrow name rfl
    obtain rfl := Option.some.inj (hcolumn.symm.trans hcolumn')
    obtain rfl := Option.some.inj (hk.symm.trans hk')
    simp [Filter.accepts, Condition.holds, Comparison.holds, hv]

section

variable {name column : String} {c : CategoryResolver ρ} (hcolumn : g.entity.categoryColumn = some column)
  (hresolver : g.resolver = some c)
include hcolumn hresolver

theorem run_categoryFilter_ok {keys : List Key} (hkeys : g.categoryKeys s c name = .ok keys) :
    (g.categoryFilter (some name)).run.run g.answer s =
      (.ok (keys.head?.map fun k => [{ column, comparison := .eq, value := k.toValue }]), s) := by
  have hfind : (Query.findKeys c.entity.kind (c.options name) : Query ρ (List Key)).run.run g.answer s =
      (.ok keys, s) := by
    show (Except.mapError _ (g.categoryKeys s c name), s) = _
    rw [hkeys]
    rfl
  rw [categoryFilter, hcolumn, hresolver]
  exact (Query.run_andThen hfind).trans rfl

theorem run_categoryFilter_error {err : StoreError} (hkeys : g.categoryKeys s c name = .error err) :
    (g.categoryFilter (some name)).run.run g.answer s = (.error (.store err), s) := by
  have hfind : (Query.findKeys c.entity.kind (c.options name) : Query ρ (List Key)).run.run g.answer s =
      (.error (.store err), s) := by
    show (Except.mapError _ (g.categoryKeys s c name), s) = _
    rw [hkeys]
    rfl
  rw [categoryFilter, hcolumn, hresolver]
  exact Query.run_andThen_error hfind

end

/-- The search for a category changes nothing. If it comes to no error, it comes to a filter that passes the
rows that are in the category, or to none if no row is. -/
theorem exists_run_categoryFilter (g : Engine ρ) (s : Stock ρ) (category : Option String) :
    ∃ x, (g.categoryFilter category).run.run g.answer s = (x, s) ∧ ∀ chosen, x = .ok chosen →
      ∀ row, (∃ f ∈ chosen, Filter.accepts f g.entity row = true) ↔ g.InCategory s category row := by
  cases category with
  | none =>
    refine ⟨_, rfl, ?_⟩
    rintro _ ⟨⟩ row
    exact ⟨fun _ => nofun, fun _ => ⟨[], rfl, rfl⟩⟩
  | some name =>
    cases hcolumn : g.entity.categoryColumn with
    | none =>
      rw [categoryFilter, hcolumn]
      exact ⟨_, rfl, nofun⟩
    | some column =>
      cases hresolver : g.resolver with
      | none =>
        rw [categoryFilter, hcolumn, hresolver]
        exact ⟨_, rfl, nofun⟩
      | some c =>
        have hkey := categoryKey?_of_resolver (s := s) hresolver name
        cases hkeys : g.categoryKeys s c name with
        | error err => exact ⟨_, run_categoryFilter_error hcolumn hresolver hkeys, nofun⟩
        | ok keys =>
          refine ⟨_, run_categoryFilter_ok hcolumn hresolver hkeys, ?_⟩
          rw [hkeys] at hkey
          rintro _ ⟨⟩ row
          cases keys with
          | nil =>
            -- There is no category of the name, and no row is in it.
            refine ⟨nofun, fun hrow => ?_⟩
            obtain ⟨-, k, -, hk, -⟩ := hrow name rfl
            rw [hkey] at hk
            cases hk
          | cons k keys =>
            have haccepts := accepts_category hcolumn hkey row
            constructor
            · rintro ⟨_, ⟨⟩, hrow⟩
              exact haccepts.1 hrow
            · exact fun hrow => ⟨_, rfl, haccepts.2 hrow⟩

/-- The filter of a category that there is passes the rows that are in it. -/
theorem run_categoryFilter {category : Option String} (h : g.Knows s category) :
    ∃ f, (g.categoryFilter category).run.run g.answer s = (.ok (some f), s) ∧
      (∀ c ∈ f, g.entity.hasColumn c.column = true) ∧
      ∀ row, Filter.accepts f g.entity row = true ↔ g.InCategory s category row := by
  cases category with
  | none => exact ⟨[], rfl, nofun, fun row => ⟨fun _ => nofun, fun _ => rfl⟩⟩
  | some name =>
    obtain ⟨⟨column, hcolumn, hdeclared⟩, hknown⟩ := h name rfl
    obtain ⟨k, hk⟩ := Option.isSome_iff_exists.1 hknown
    obtain ⟨c, hresolver, -⟩ := Option.bind_eq_some_iff.1 hk
    refine ⟨[{ column, comparison := .eq, value := k.toValue }], ?_, ?_, accepts_category hcolumn hk⟩
    · rw [categoryKey?_of_resolver hresolver] at hk
      cases hkeys : g.categoryKeys s c name with
      | error err =>
        rw [hkeys] at hk
        cases hk
      | ok keys =>
        rw [hkeys] at hk
        replace hk : keys.head? = some k := hk
        rw [run_categoryFilter_ok hcolumn hresolver hkeys, hk]
        rfl
    · intro condition hcondition
      rw [List.mem_singleton.1 hcondition]
      exact hdeclared

/-! ## Pages -/

/-- The rows of a page of so many at most: rows of a category after a key, if there is one, in the order of
their keys. None is left out before the last, and an empty page leaves out none at all. -/
structure IsPage (g : Engine ρ) (s : Stock ρ) (category : Option String) (start : Option Key) (n : Nat)
    (items : List ρ) : Prop where
  length_le : items.length ≤ n
  sorted : items.Pairwise fun a b => compare (g.entity.key a) (g.entity.key b) = .lt
  offered : ∀ row ∈ items, s.rows.get? (g.entity.key row) = some row ∧ g.InCategory s category row
  after : ∀ row ∈ items, ∀ k ∈ start, compare k (g.entity.key row) = .lt
  complete : ∀ row, s.rows.get? (g.entity.key row) = some row → g.InCategory s category row →
    (∀ k ∈ start, compare k (g.entity.key row) = .lt) →
    (∀ last ∈ items.getLast?, (compare (g.entity.key row) (g.entity.key last)).isLE = true) → row ∈ items

/-- The key after which a page starts: that of a cursor, if there is one that can be read and there is a row
under its key. -/
def startOf (s : Stock ρ) (after : Option String) : Option Key :=
  (after.bind Cursor.decode?).filter fun k => (s.rows.get? k).isSome

theorem startOf_encode {start : Option Key} (hthere : ∀ k ∈ start, (s.rows.get? k).isSome = true) :
    startOf s (start.map Cursor.encode) = start := by
  cases start with
  | none => rfl
  | some k =>
    rw [startOf, Option.map_some, Option.bind_some, Cursor.decode?_encode]
    exact Option.filter_some_pos (hthere k rfl)

/-- The first rows that pass a filter, after a key if there is one. -/
def rowsAfter (g : Engine ρ) (s : Stock ρ) (f : Filter) (start : Option Key) (n : Nat) : List ρ :=
  (s.rows.inOrder g.entity (f ++ start.toList.map (Filter.after g.entity))).take n

/-- The answer with a page of so many rows at most, of the rows that pass a filter. -/
def pageAnswer (g : Engine ρ) (s : Stock ρ) (f : Filter) (n : UInt32) (items : List ρ) : Resolution ρ where
  items := items
  connection := some {
    hasNextPage := n.toUInt64 < .ofNat (s.rows.matching g.entity f).length
    endCursor := items.getLast?.map fun row => Cursor.encode (g.entity.key row)
    totalCount := .ofNat (s.rows.matching g.entity f).length }

/-- The first rows after a key are a page. -/
theorem isPage_rowsAfter (ht : s.rows.WellKeyed g.entity)
    (hkeyed : ∀ k row, s.rows.get? k = some row → g.entity.Keyed row) {category : Option String}
    {f : Filter} (hf : ∀ row, f.accepts g.entity row = true ↔ g.InCategory s category row)
    (start : Option Key) {n : Nat} (hn : 1 ≤ n) :
    g.IsPage s category start n (g.rowsAfter s f start n) := by
  rw [rowsAfter]
  generalize hall : s.rows.inOrder g.entity (f ++ start.toList.map (Filter.after g.entity)) = all
  have hmem : ∀ row, row ∈ all ↔ s.rows.get? (g.entity.key row) = some row ∧
      g.InCategory s category row ∧ ∀ k ∈ start, compare k (g.entity.key row) = .lt := by
    intro row
    rw [← hall, ht.mem_inOrder, Filter.accepts_append, Bool.and_eq_true, hf]
    refine and_congr_right fun hrow => and_congr_right fun _ => ?_
    exact Filter.accepts_after (hkeyed _ row hrow) start
  have hsorted : all.Pairwise fun a b => compare (g.entity.key a) (g.entity.key b) = .lt :=
    hall ▸ ht.pairwise_inOrder hkeyed _
  refine ⟨List.length_take_le n all, hsorted.sublist (List.take_sublist n all), ?_, ?_, ?_⟩
  · intro row hrow
    obtain ⟨hthere, hcategory, -⟩ := (hmem row).1 (List.mem_of_mem_take hrow)
    exact ⟨hthere, hcategory⟩
  · intro row hrow
    exact ((hmem row).1 (List.mem_of_mem_take hrow)).2.2
  · intro row hthere hcategory hafter hlast
    have hrow : row ∈ all := (hmem row).2 ⟨hthere, hcategory, hafter⟩
    cases hend : (all.take n).getLast? with
    | none =>
      -- A page has room for a row, so it is empty only if there is none.
      rw [List.getLast?_eq_none_iff, List.take_eq_nil_iff] at hend
      rcases hend with hzero | hnone
      · omega
      · rw [hnone] at hrow
        cases hrow
    | some last => exact mem_take_of_isLE hsorted hrow (List.mem_of_getLast? hend) (hlast last hend)

end Engine

namespace Desk

variable {u : Setup ρ} {d : Desk ρ}

theorem run_cursorStart (u : Setup ρ) (d : Desk ρ) (after : Option String) :
    (Engine.cursorStart after : Query ρ (Option Key)).run.run u.engine.answer d.stock =
      (.ok (Engine.startOf d.stock after), d.stock) := by
  cases after with
  | none => rfl
  | some cursor =>
    cases hdecode : Cursor.decode? cursor with
    | none =>
      rw [Engine.cursorStart, hdecode, Engine.startOf, Option.bind_some, hdecode]
      rfl
    | some k =>
      rw [Engine.cursorStart, hdecode, Engine.startOf, Option.bind_some, hdecode]
      refine (Query.run_andThen (run_loadMany u.engine d.stock [k])).trans ?_
      rw [Table.findByIds, Option.filter]
      cases hrow : d.stock.rows.get? k with
      | none =>
        rw [List.filterMap_cons_none hrow]
        rfl
      | some row =>
        rw [List.filterMap_cons_some hrow]
        rfl

/-- The rows that pass a filter are counted. -/
theorem run_count {g : Engine ρ} {s : Stock ρ} {f : Filter} (hf : ∀ c ∈ f, g.entity.hasColumn c.column = true) :
    (Query.count f : Query ρ UInt64).run.run g.answer s =
      (.ok (.ofNat (s.rows.matching g.entity f).length), s) := by
  show (Except.mapError _ (s.rows.count g.entity f), _) = _
  rw [Table.count, (FindOptions.declared_filter hf).check]
  rfl

/-- The answer with the first rows that pass a filter, after the key that a cursor names. -/
theorem run_cursorPage (hd : Coherent u d) {f : Filter}
    (hf : ∀ c ∈ f, u.engine.entity.hasColumn c.column = true) (after : Option String) (first : Option UInt32)
    {items : List ρ} (hitems : u.engine.rowsAfter d.stock f (Engine.startOf d.stock after)
      (u.engine.limits.first first).toNat = items) :
    (u.engine.cursorPage f {} after first).run.run u.engine.answer d.stock =
      (.ok (u.engine.pageAnswer d.stock f (u.engine.limits.first first) items), d.stock) := by
  have hwindow : (u.engine.fetchWindow
      { filter := f ++ (Engine.startOf d.stock after).toList.map (Filter.after u.engine.entity)
        order := [u.engine.entity.natural]
        take := some (u.engine.limits.first first).toUInt64 } {}).run.run u.engine.answer d.stock =
      (.ok items, d.stock) := by
    have hkey := u.engine.entity.hasColumn_keyColumn
    rw [run_fetchWindow hd.keyed, Table.findMany_inOrder (FindOptions.Declared.check ⟨?_, ?_, by simp⟩) rfl rfl
      rfl, UInt32.toNat_toUInt64, ← hitems]
    · rfl
    · intro c hc
      rcases List.mem_append.1 hc with hc | hc
      · exact hf c hc
      · obtain ⟨k, -, rfl⟩ := List.mem_map.1 hc
        exact hkey
    · intro x hx
      rw [List.mem_singleton.1 hx]
      exact hkey
  refine (Query.run_andThen (run_count hf)).trans ?_
  refine (Query.run_andThen (run_cursorStart u d after)).trans ?_
  exact (Query.run_andThen hwindow).trans rfl

/-- A request for the rows after a cursor is answered with a page, and with the cursor of its last row. -/
theorem perform_following (hd : Coherent u d)
    (hkeyed : ∀ k row, d.stock.rows.get? k = some row → u.engine.entity.Keyed row) (r : Request)
    (first : Option UInt32) (hknown : u.engine.Knows d.stock r.category) {start : Option Key}
    (hthere : ∀ k ∈ start, (d.stock.rows.get? k).isSome = true) :
    ∃ x, u.engine.perform d.stock (.resolve (r.following (start.map Cursor.encode) first)) =
        ([.ok x], d.stock) ∧
      x.endCursor = x.items.getLast?.map (fun row => Cursor.encode (u.engine.entity.key row)) ∧
      u.engine.IsPage d.stock r.category start (u.engine.limits.first first).toNat x.items := by
  obtain ⟨f, hfilter, hdeclared, hf⟩ := Engine.run_categoryFilter hknown
  generalize hitems : u.engine.rowsAfter d.stock f start (u.engine.limits.first first).toNat = items
  have hrun : (u.engine.resolve { r.following (start.map Cursor.encode) first with fields := none }).run.run
      u.engine.answer d.stock =
      (.ok (u.engine.pageAnswer d.stock f (u.engine.limits.first first) items), d.stock) := by
    refine (Query.run_andThen hfilter).trans (run_cursorPage hd hdeclared _ first ?_)
    rw [Engine.startOf_encode hthere]
    exact hitems
  refine ⟨u.engine.pageAnswer d.stock f (u.engine.limits.first first) items, ?_, rfl, ?_⟩
  · rw [Engine.perform, hrun]
  · rw [Engine.pageAnswer, ← hitems]
    exact Engine.isPage_rowsAfter hd.keyed hkeyed hf start (u.engine.limits.first_bounds first).1

end Desk

end ReadThrough
