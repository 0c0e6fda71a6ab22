import ReadThrough.Newsroom
import ReadThrough.Proofs.Paging.Limits
import ReadThrough.Proofs.Query.Collect
import ReadThrough.Proofs.Query.Selection
import ReadThrough.Proofs.Query.Trace
/-!
# What an engine asks of a store

A request comes from outside, but its names go into the questions that a store is asked. Whatever a request
says, and whatever is answered, an engine asks for declared columns and relations only, puts rows in an order
that ends with the key column, and asks for one row at least and no more than its limits allow
(`queries_admissible`). So if a store gives no more rows than it is asked for, the answer has no more.

The store is any store: every answer is possible, errors included. So is the resolver of categories, which is
asked first and may find any key.
-/

namespace ReadThrough

variable {ρ : Type}

/-- A sample of none is no sample. -/
theorem Request.pos_of_mode {r : Request} {n : UInt32} (h : r.mode = .ok (.random n)) : 0 < n := by
  unfold mode at h
  split at h
  · cases h
  · cases h
  · rename_i hrandom
    cases h
    exact of_decide_eq_true (Option.filter_eq_some_iff.1 hrandom).2
  · cases h

/-! ## Laws -/

/-- Loads are answered key by key. Nothing else is said of an answer. -/
def fits : Law ρ
  | .load keys, r => r.length = keys.length
  | .count _, _ | .findKeys _ _, _ | .findMany _, _ | .unit, _ | .shuffle _, _ | .epoch, _ | .prime _ _, _ => True

/-- No more is found than is asked for. -/
def modest : Law ρ
  | .findKeys _ o, r => ∀ keys, r = .ok keys → ∀ n ∈ o.take, keys.length ≤ n.toNat
  | .findMany o, r => ∀ rows, r = .ok rows → ∀ n ∈ o.take, rows.length ≤ n.toNat
  | .count _, _ | .load _, _ | .unit, _ | .shuffle _, _ | .epoch, _ | .prime _ _, _ => True

/-- The options of a query that looks for rows. -/
def Ask.options? : Ask ρ → Option FindOptions
  | .findKeys _ o | .findMany o => some o
  | .count _ | .load _ | .unit | .shuffle _ | .epoch | .prime _ _ => none

/-! ## Admissible options -/

/-- An order has the key column once, as its last. -/
structure EndsWithKey (e : Entity ρ) (order : List Order) : Prop where
  once : (order.map (·.column)).count e.keyColumn = 1
  last : ∃ o ∈ order.getLast?, o.column = e.keyColumn

/-- Options that a store may be asked for: everything in them is declared, their order ends with the key
column, and they ask for one row at least and no more than a bound. -/
structure Admissible (e : Entity ρ) (bound : Nat) (o : FindOptions) : Prop where
  known : o.check e = .ok ()
  select : ∀ columns ∈ o.select, ∀ c ∈ columns, e.hasColumn c = true
  order : EndsWithKey e o.order
  take : ∃ n ∈ o.take, 1 ≤ n.toNat ∧ n.toNat ≤ bound

namespace Engine

variable {g : Engine ρ} {law : Law ρ}

/-- The most rows that a request may ask for. A request for rows by key does not look for any. -/
def ceiling (g : Engine ρ) (r : Request) : Nat :=
  match r.mode with
  | .ok (.random _) | .ok (.page (.offset _ _)) => max 1 g.limits.maxPageSize.toNat
  | .ok (.page (.cursor _ _)) => max 1 g.limits.maxFirst.toNat
  | .ok (.ids _) | .error _ => 0

/-- What a resolver of categories asks of its own store for the name of a category. -/
def LooksUp (g : Engine ρ) (category : Option String) (q : Ask ρ) : Prop :=
  ∃ c name, g.resolver = some c ∧ category = some name ∧ q = .findKeys c.entity.kind (c.options name)

/-- What an engine may ask: filters of declared columns, and admissible options for so many rows. -/
def Admits (g : Engine ρ) (bound : Nat) (n : UInt64) : Ask ρ → Prop
  | .count f => FindOptions.check { filter := f } g.entity = .ok ()
  | .findKeys kind o => kind = g.entity.kind ∧ Admissible g.entity bound o ∧ o.take = some n
  | .findMany o => Admissible g.entity bound o ∧ o.take = some n
  | .load _ | .unit | .shuffle _ | .epoch | .prime _ _ => True

/-- What an engine has asked of its store is admissible, and the answer has no more rows than it has asked for,
as long as no more have been given. -/
structure Restrained (g : Engine ρ) (bound : Nat) (log : List (Exchange ρ)) (x : Except QueryError (Resolution ρ)) :
    Prop where
  counts : ∀ e ∈ log, ∀ f, e.ask = .count f → FindOptions.check { filter := f } g.entity = .ok ()
  kinds : ∀ e ∈ log, ∀ kind o, e.ask = .findKeys kind o → kind = g.entity.kind
  options : ∀ e ∈ log, ∀ o ∈ e.ask.options?, Admissible g.entity bound o
  items : (∀ e ∈ log, modest e.ask e.answer) → ∀ y, x = .ok y →
    ∀ e ∈ log, ∀ o ∈ e.ask.options?, ∀ n ∈ o.take, y.items.length ≤ n.toNat

/-- The columns of a filter are declared. -/
def DeclaredIn (g : Engine ρ) (f : Filter) : Prop := ∀ c ∈ f, g.entity.hasColumn c.column = true

end Engine

namespace Query.Keeps

open Engine

variable {g : Engine ρ} {law : Law ρ} {bound : Nat} {n : UInt64}

/-! ## Queries -/

theorem count {f : Filter} (hf : g.DeclaredIn f) :
    Keeps law (g.Admits bound n) (fun _ => True) (Query.count f : Query ρ UInt64) :=
  tryAsk (FindOptions.declared_filter hf).check fun _ _ _ _ => trivial

/-- A query that may be asked, and whose answer does not matter. -/
theorem free {q : Ask ρ} (hq : g.Admits bound n q) :
    Keeps law (g.Admits bound n) (fun _ => True) (Query.ask q) :=
  ask hq fun _ _ => trivial

theorem findKeys {o : FindOptions} (ho : Admissible g.entity bound o) (htake : o.take = some n) :
    Keeps law (g.Admits bound n) (fun keys => (∀ q r, law q r → modest q r) → keys.length ≤ n.toNat)
      (Query.findKeys g.entity.kind o : Query ρ (List Key)) :=
  tryAsk ⟨rfl, ho, htake⟩ fun _ keys hr hkeys hmodest => hmodest _ _ hr keys hkeys n htake

theorem findMany {o : FindOptions} (ho : Admissible g.entity bound o) (htake : o.take = some n) :
    Keeps law (g.Admits bound n) (fun rows => (∀ q r, law q r → modest q r) → rows.length ≤ n.toNat)
      (Query.tryAsk (.findMany o) id : Query ρ (List ρ)) :=
  tryAsk ⟨ho, htake⟩ fun _ rows hr hrows hmodest => hmodest _ _ hr rows hrows n htake

variable (hlaw : ∀ q r, law q r → fits q r)
include hlaw

theorem loadMany (keys : List Key) :
    Keeps law (g.Admits bound n) (fun rows => rows.length ≤ keys.length)
      (Query.loadMany keys : Query ρ (List ρ)) := by
  refine tryAsk trivial fun r rows hr hrows => ?_
  have hlength : r.length = keys.length := hlaw _ _ hr
  rw [← hlength]
  exact length_collect hrows

/-- Whether whole rows or keys are asked for, a window brings no more rows than are found. -/
theorem fetchWindow {o : FindOptions} (ho : Admissible g.entity bound o) (htake : o.take = some n)
    (s : Selection) :
    Keeps law (g.Admits bound n) (fun rows => (∀ q r, law q r → modest q r) → rows.length ≤ n.toNat)
      (g.fetchWindow o s) := by
  unfold Engine.fetchWindow
  split
  · refine andThen (free (q := .epoch) trivial) fun epoch _ => ?_
    refine andThen (findMany ho htake) fun rows hrows => ?_
    exact andThen (free (q := .prime rows epoch) trivial) fun _ _ => pure hrows
  · refine andThen (findKeys ho htake) fun keys hkeys => ?_
    refine (loadMany hlaw keys).mono fun rows hrows hmodest => ?_
    exact Nat.le_trans hrows (hkeys hmodest)

theorem cursorStart (after : Option String) :
    Keeps law (g.Admits bound n) (fun _ => True) (Engine.cursorStart after : Query ρ (Option Key)) := by
  unfold Engine.cursorStart
  split
  · exact pure trivial
  · split
    · exact pure trivial
    · exact andThen (loadMany hlaw _) fun found _ => pure trivial

omit hlaw in
/-- Whatever order a request names, pages are ordered by declared columns, and by key at last. -/
theorem pageOrder (orderBy : Option Order) :
    Keeps law (g.Admits bound n)
      (fun order => (∀ o ∈ order, g.entity.hasColumn o.column = true) ∧ EndsWithKey g.entity order)
      (g.pageOrder orderBy) := by
  have hkey := g.entity.hasColumn_keyColumn
  unfold Engine.pageOrder
  split
  · refine pure ⟨List.forall_mem_singleton.2 hkey, ?_⟩
    exact ⟨by simp [Entity.natural], g.entity.natural, rfl, rfl⟩
  · rename_i o
    split
    · exact refuse law _ _ _
    · rename_i hcolumn
      replace hcolumn : g.entity.hasColumn o.column = true := by simpa using hcolumn
      split
      · rename_i ho
        refine pure ⟨List.forall_mem_singleton.2 hcolumn, ?_⟩
        exact ⟨by simp [ho], o, rfl, ho⟩
      · rename_i ho
        refine pure ⟨List.forall_mem_cons.2 ⟨hcolumn, List.forall_mem_singleton.2 hkey⟩, ?_⟩
        exact ⟨by simp [Entity.natural, ho], g.entity.natural, rfl, rfl⟩

variable {f : Filter} (hf : g.DeclaredIn f)
include hf

/-- A sample is a window by key, of as many rows as the limits allow at most. -/
theorem sample {m : UInt32} (hm : 0 < m) :
    Keeps law (g.Admits (max 1 g.limits.maxPageSize.toNat) (g.limits.sample m).toUInt64)
      (fun y => y.items.length ≤ (g.limits.sample m).toUInt64.toNat) (g.sample f m) := by
  refine andThen (count hf) fun total _ => ?_
  refine andThen (free (q := .unit) trivial) fun unit _ => ?_
  refine andThen (findKeys ⟨?_, nofun, ?_, ?_⟩ rfl) fun keys _ => ?_
  · exact FindOptions.Declared.check ⟨hf, List.forall_mem_singleton.2 g.entity.hasColumn_keyColumn, nofun⟩
  · exact ⟨by simp [Entity.natural], g.entity.natural, rfl, rfl⟩
  · refine ⟨_, rfl, ?_⟩
    rw [UInt32.toNat_toUInt64]
    exact g.limits.sample_bounds hm
  · refine andThen (free (q := .shuffle keys) trivial) fun shuffled _ => ?_
    refine andThen (loadMany hlaw _) fun items hitems => pure ?_
    exact Nat.le_trans hitems (List.length_take_le _ _)

variable {s : Selection} (hs : s.Declared g.entity)
include hs

/-- A page by number is a window of the size that the limits make of the size it asks for. -/
theorem offsetPage (orderBy : Option Order) (page : UInt32) (size : Option UInt32) :
    Keeps law (g.Admits (max 1 g.limits.maxPageSize.toNat) (g.limits.pageSize size).toUInt64)
      (fun y => (∀ q r, law q r → modest q r) → y.items.length ≤ (g.limits.pageSize size).toUInt64.toNat)
      (g.offsetPage f orderBy s page size) := by
  by_cases hpage : page = 0
  · rw [Engine.offsetPage, Limits.window, if_pos hpage]
    exact refuse law _ _ _
  · obtain ⟨w, hw, -, htake, -⟩ := g.limits.window_eq size hpage
    have hsize : w.take = (g.limits.pageSize size).toUInt64 := by
      rw [← UInt64.toNat_inj, htake, UInt32.toNat_toUInt64]
    rw [Engine.offsetPage, hw, ← hsize]
    refine andThen (pageOrder orderBy) fun order horder => ?_
    refine andThen (fetchWindow hlaw ⟨?_, hs.select, horder.2, ?_⟩ rfl s) fun items hitems => pure hitems
    · exact FindOptions.Declared.check ⟨hf, horder.1, hs.relations⟩
    · refine ⟨_, rfl, ?_⟩
      rw [htake]
      exact g.limits.pageSize_bounds size

/-- A page after a cursor is a window by key, of the size that the limits make of the count it asks for. -/
theorem cursorPage (after : Option String) (first : Option UInt32) :
    Keeps law (g.Admits (max 1 g.limits.maxFirst.toNat) (g.limits.first first).toUInt64)
      (fun y => (∀ q r, law q r → modest q r) → y.items.length ≤ (g.limits.first first).toUInt64.toNat)
      (g.cursorPage f s after first) := by
  refine andThen (count hf) fun total _ => ?_
  refine andThen (cursorStart hlaw after) fun start _ => ?_
  refine andThen (fetchWindow hlaw ⟨?_, hs.select, ?_, ?_⟩ rfl s) fun items hitems => pure hitems
  · refine FindOptions.Declared.check ⟨?_, List.forall_mem_singleton.2 g.entity.hasColumn_keyColumn, hs.relations⟩
    intro c hc
    rcases List.mem_append.1 hc with hc | hc
    · exact hf c hc
    · obtain ⟨k, -, rfl⟩ := List.mem_map.1 hc
      exact g.entity.hasColumn_keyColumn
  · exact ⟨by simp [Entity.natural], g.entity.natural, rfl, rfl⟩
  · refine ⟨_, rfl, ?_⟩
    rw [UInt32.toNat_toUInt64]
    exact g.limits.first_bounds first

end Query.Keeps

namespace Engine

open Query

variable {g : Engine ρ} {law : Law ρ} {log : List (Exchange ρ)}

/-! ## Requests -/

theorem options_of_admits {bound : Nat} {n : UInt64} {q : Ask ρ} (h : g.Admits bound n q) :
    ∀ o ∈ q.options?, Admissible g.entity bound o ∧ o.take = some n := by
  cases q with
  | findKeys kind o =>
    rintro _ ⟨⟩
    exact h.2
  | findMany o =>
    rintro _ ⟨⟩
    exact h
  | count | load | unit | shuffle | epoch | prime => exact nofun

/-- It is enough to look at what a query asks and brings under every law. -/
theorem restrained_of_keeps {p : Query ρ (Resolution ρ)} {bound : Nat} {n : UInt64}
    (hp : ∀ law : Law ρ, (∀ q r, law q r → fits q r) → Keeps law (g.Admits bound n)
      (fun y => 0 < bound → (∀ q r, law q r → modest q r) → y.items.length ≤ n.toNat) p)
    {x : Except QueryError (Resolution ρ)} (h : p.run.Runs fits log x) : g.Restrained bound log x := by
  have hasked := (hp fits (fun _ _ hr => hr) log x h).1
  refine ⟨?_, ?_, ?_, ?_⟩
  · intro e he f hf
    have hadmits := hasked e he
    rw [hf] at hadmits
    exact hadmits
  · intro e he kind o ho
    have hadmits := hasked e he
    rw [ho] at hadmits
    exact hadmits.1
  · exact fun e he o ho => (options_of_admits (hasked e he) o ho).1
  · intro hmodest y hy e he o ho m hm
    obtain ⟨hadmissible, htake⟩ := options_of_admits (hasked e he) o ho
    obtain ⟨k, -, hone, hbound⟩ := hadmissible.take
    obtain rfl : n = m := Option.some.inj (htake.symm.trans hm)
    -- The same run is possible under the law that gives no more than is asked for.
    have hruns : p.run.Runs (fun q r => fits q r ∧ modest q r) log x :=
      h.under fun e he => ⟨h.possible e he, hmodest e he⟩
    exact (hp _ (fun _ _ hr => hr.1) log x hruns).2 y hy (Nat.lt_of_lt_of_le hone hbound) fun _ _ hr => hr.2

/-- A resolver is asked for its category, and the column of the filter is the one of the categories. -/
theorem keeps_categoryFilter (hcategory : ∀ column ∈ g.entity.categoryColumn, g.entity.hasColumn column = true)
    (category : Option String) :
    Keeps law (g.LooksUp category) (fun chosen => ∀ f ∈ chosen, g.DeclaredIn f) (g.categoryFilter category) := by
  cases category with
  | none =>
    refine .pure ?_
    rintro _ ⟨⟩
    exact nofun
  | some name =>
    cases hcolumn : g.entity.categoryColumn with
    | none =>
      rw [categoryFilter, hcolumn]
      exact .refuse law _ _ _
    | some column =>
      cases hresolver : g.resolver with
      | none =>
        rw [categoryFilter, hcolumn, hresolver]
        exact .refuse law _ _ _
      | some c =>
        rw [categoryFilter, hcolumn, hresolver]
        refine Keeps.andThen (Q := fun _ => True) (.tryAsk ⟨c, name, hresolver, rfl, rfl⟩ fun _ _ _ _ => trivial) ?_
        intro keys _
        refine .pure fun f hf => ?_
        obtain ⟨k, -, rfl⟩ := Option.map_eq_some_iff.1 hf
        exact List.forall_mem_singleton.2 (hcategory column hcolumn)

/-- A category is looked up before anything else is asked. If there is none, nothing else is. -/
theorem runs_category (hcategory : ∀ column ∈ g.entity.categoryColumn, g.entity.hasColumn column = true)
    {category : Option String} {a : Resolution ρ} {next : Filter → Query ρ (Resolution ρ)}
    {x : Except QueryError (Resolution ρ)} {bound : Nat}
    (h : (g.categoryFilter category >>= fun
      | none => pure a
      | some f => next f).run.Runs fits log x)
    (hnext : ∀ f own, g.DeclaredIn f → (next f).run.Runs fits own x → g.Restrained bound own x) :
    ∃ lookups own, log = lookups ++ own ∧ (∀ e ∈ lookups, g.LooksUp category e.ask) ∧
      g.Restrained bound own x := by
  have hnothing : g.Restrained bound [] x := ⟨nofun, nofun, nofun, fun _ _ _ => nofun⟩
  rcases runs_andThen h with ⟨e, hfilter, rfl⟩ | ⟨chosen, lookups, own, rfl, hfilter, hrest⟩
  · exact ⟨log, [], (List.append_nil _).symm, (keeps_categoryFilter hcategory category _ _ hfilter).1, hnothing⟩
  · obtain ⟨hlooks, hchosen⟩ := keeps_categoryFilter hcategory category _ _ hfilter
    refine ⟨lookups, own, rfl, hlooks, ?_⟩
    cases chosen with
    | none =>
      cases hrest
      exact hnothing
    | some f => exact hnext f own (hchosen _ rfl f rfl) hrest

theorem runs_mode {r : Request} {y : Except QueryError Mode}
    (h : (liftM r.mode : Query ρ Mode).run.Runs law log y) : log = [] ∧ r.mode = y := by
  generalize r.mode = x at h
  cases h
  exact ⟨rfl, rfl⟩

/-- Whatever a request says and whatever is answered, what an engine asks is admissible: apart from the lookup
of a category by its resolver, it asks for declared columns and relations, in an order that has the key column
once, as its last, and for one row at least and no more than its limits allow. If no more rows are found than
are asked for, the answer has no more either. -/
theorem queries_admissible (g : Engine ρ)
    (hcategory : ∀ column ∈ g.entity.categoryColumn, g.entity.hasColumn column = true) {r : Request}
    {x : Except QueryError (Resolution ρ)} (h : (g.resolve r).run.Runs fits log x) :
    ∃ lookups own, log = lookups ++ own ∧ (∀ e ∈ lookups, g.LooksUp r.category e.ask) ∧
      g.Restrained (g.ceiling r) own x := by
  have hnothing : g.Restrained (g.ceiling r) [] x := ⟨nofun, nofun, nofun, fun _ _ _ => nofun⟩
  have hselection := Selection.declared_ofFields g.entity (r.fields.getD [])
  rcases runs_andThen h with ⟨e, hfirst, rfl⟩ | ⟨mode, before, after, rfl, hfirst, hrest⟩
  · obtain ⟨rfl, -⟩ := runs_mode hfirst
    exact ⟨[], [], rfl, nofun, hnothing⟩
  · obtain ⟨rfl, hmode⟩ := runs_mode hfirst
    rw [List.nil_append, ceiling, hmode]
    cases mode with
    | ids keys =>
      refine ⟨[], after, rfl, nofun, restrained_of_keeps (n := 0) (fun law hlaw => ?_) hrest⟩
      exact .andThen (.loadMany hlaw keys) fun items _ => .pure fun hnone => absurd hnone (Nat.lt_irrefl 0)
    | random n =>
      have hn := Request.pos_of_mode hmode
      refine runs_category hcategory hrest fun f own hf hruns => ?_
      refine restrained_of_keeps (n := (g.limits.sample n).toUInt64) (fun law hlaw => ?_) hruns
      exact (Keeps.sample hlaw hf hn).mono fun y hy _ _ => hy
    | page p =>
      cases p with
      | offset page size =>
        refine runs_category hcategory hrest fun f own hf hruns => ?_
        refine restrained_of_keeps (n := (g.limits.pageSize size).toUInt64) (fun law hlaw => ?_) hruns
        exact (Keeps.offsetPage hlaw hf hselection r.orderBy page size).mono fun y hy _ => hy
      | cursor after first =>
        refine runs_category hcategory hrest fun f own hf hruns => ?_
        refine restrained_of_keeps (n := (g.limits.first first).toUInt64) (fun law hlaw => ?_) hruns
        exact (Keeps.cursorPage hlaw hf hselection after first).mono fun y hy _ => hy

/-! ## News -/

/-- An engine for articles, which finds their categories by name. -/
def newsEngine : Engine Newsroom.Item where
  entity := Newsroom.articles
  limits := {}
  resolver := some { entity := Newsroom.categories, nameColumn := "name" }

/-- The request for the first page of news, two articles on it, with what is published first. -/
def frontPage : Request where
  category := some "news"
  page := some (.offset 1 (some 2))
  orderBy := some { column := "published", direction := .desc }

/-- What the engine asks for the first page of news. -/
def frontPageOptions : FindOptions where
  filter := [{ column := "category_id", comparison := .eq, value := .int 1 }]
  order := [{ column := "published", direction := .desc }, { column := "id" }]
  take := some 2

/-- What is asked and answered for the first page of news. -/
def frontPageLog : List (Exchange Newsroom.Item) :=
  [⟨.findKeys "Category" (CategoryResolver.options { entity := Newsroom.categories, nameColumn := "name" } "news"),
      .ok [.int 1]⟩,
    ⟨.findKeys "Article" frontPageOptions, .ok [.int 3, .int 1]⟩,
    ⟨.load [.int 3, .int 1], [.ok (some (Newsroom.article 3)), .ok (some (Newsroom.article 1))]⟩]

theorem runs_frontPage : (newsEngine.resolve frontPage).run.Runs fits frontPageLog
    (.ok { items := [3, 1].map Newsroom.article }) :=
  .ask trivial (.ask trivial (.ask rfl .done))

/-- For a page of news, the resolver is asked for the category, and then the engine asks for two articles, which
are fewer than two hundred. -/
theorem queries_admissible_news :
    (∀ column ∈ Newsroom.articles.categoryColumn, Newsroom.articles.hasColumn column = true) ∧
      (newsEngine.resolve frontPage).run.Runs fits frontPageLog (.ok { items := [3, 1].map Newsroom.article }) ∧
      newsEngine.ceiling frontPage = 200 ∧
      ∃ lookups own, frontPageLog = lookups ++ own ∧ (∀ e ∈ lookups, newsEngine.LooksUp (some "news") e.ask) ∧
        newsEngine.Restrained 200 own (.ok { items := [3, 1].map Newsroom.article }) := by
  have hcategory : ∀ column ∈ Newsroom.articles.categoryColumn, Newsroom.articles.hasColumn column = true := by
    rintro _ ⟨⟩
    decide
  exact ⟨hcategory, runs_frontPage, rfl, queries_admissible newsEngine hcategory runs_frontPage⟩

end Engine

end ReadThrough
