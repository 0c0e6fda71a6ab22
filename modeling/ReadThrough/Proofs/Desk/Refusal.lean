import ReadThrough.Proofs.Desk.Outcome
import ReadThrough.Proofs.Desk.Transparency
/-!
# Which requests are refused

A request is refused if it asks for keys and for a random sample at once, if it names a category although
there is no telling categories, or if it asks for a page by a number, or in an order, that there is not. The
last is not seen if there is no category of the name that the request gives: then the answer is empty, whatever
the page. No other request is refused, and none fails (`malformed_iff`).
-/

namespace ReadThrough

/-! ## What is wrong with a request -/

/-- A request that asks for keys and for a random sample. -/
def Request.Conflicting (r : Request) : Prop :=
  (∃ keys, r.ids = some keys ∧ keys ≠ []) ∧ ∃ n, r.random = some n ∧ 0 < n

theorem Request.mode_cases (r : Request) :
    (r.Conflicting ∧ r.mode = .error (.malformed .idsWithRandom)) ∨
      (¬ r.Conflicting ∧ ∃ mode, r.mode = .ok mode) := by
  have hids : (r.ids.filter (· ≠ [])).isSome = true ↔ ∃ keys, r.ids = some keys ∧ keys ≠ [] := by
    cases r.ids <;> simp [Option.filter]
  have hrandom : (r.random.filter (0 < ·)).isSome = true ↔ ∃ n, r.random = some n ∧ 0 < n := by
    cases r.random <;> simp [Option.filter]
  rw [Conflicting, ← hids, ← hrandom, mode]
  cases r.ids.filter (· ≠ []) <;> cases r.random.filter (0 < ·) <;> simp

namespace Engine

variable {ρ : Type}

/-- A request that names a category, although there is no column for it or nobody who knows the names. -/
def Uncategorized (g : Engine ρ) (r : Request) : Prop :=
  (∀ keys, r.mode ≠ .ok (.ids keys)) ∧ r.category.isSome = true ∧
    (g.entity.categoryColumn = none ∨ g.resolver = none)

/-- A request for page zero, or for a page in the order of an undeclared column. -/
def Mispaged (g : Engine ρ) (r : Request) : Prop :=
  ∃ page size, r.mode = .ok (.page (.offset page size)) ∧
    (page = 0 ∨ ∃ o ∈ r.orderBy, g.entity.hasColumn o.column = false)

/-- There is a category of a name: a row of the categories' table has it. -/
def HasCategory (g : Engine ρ) (s : Stock ρ) (name : String) : Prop :=
  ∃ c e t, g.resolver = some c ∧ g.table? s c.entity.kind = some (e, t) ∧
    ∃ row ∈ t.rows.values, e.value row c.nameColumn = some (.text name)

/-- A request that is refused: that its page is wrong is seen only if its category is there. -/
def Refuses (g : Engine ρ) (s : Stock ρ) (r : Request) : Prop :=
  r.Conflicting ∨ g.Uncategorized r ∨ (g.Mispaged r ∧ ∀ name ∈ r.category, g.HasCategory s name)

/-- The columns that an engine uses for categories are declared, and kinds tell entities apart. -/
structure Declares (g : Engine ρ) : Prop where
  category : ∀ column ∈ g.entity.categoryColumn, g.entity.hasColumn column = true
  name : ∀ c ∈ g.resolver, c.entity.hasColumn c.nameColumn = true
  kind : ∀ c ∈ g.resolver, c.entity.kind = g.entity.kind → c.entity = g.entity

variable {g : Engine ρ} {s : Stock ρ}

/-! ## Categories -/

/-- What may come of the search for the category that a request names. -/
inductive CategoryOutcome (g : Engine ρ) (s : Stock ρ) (category : Option String) :
    Except QueryError (Option Filter) → Prop where
  | refused {reason : Malformation} (named : category.isSome = true)
      (unset : g.entity.categoryColumn = none ∨ g.resolver = none) :
      CategoryOutcome g s category (.error (.malformed reason))
  | missing {name : String} (named : category = some name) (unknown : ¬ g.HasCategory s name)
      (set : ¬ (g.entity.categoryColumn = none ∨ g.resolver = none)) :
      CategoryOutcome g s category (.ok none)
  | found {f : Filter} (declared : ∀ c ∈ f, g.entity.hasColumn c.column = true)
      (known : ∀ name ∈ category, g.HasCategory s name)
      (set : category.isSome = true → ¬ (g.entity.categoryColumn = none ∨ g.resolver = none)) :
      CategoryOutcome g s category (.ok (some f))

/-- The table of a resolver is there, and has the column of the names. -/
theorem Declares.table? (hg : g.Declares) {c : CategoryResolver ρ} (hc : g.resolver = some c)
    (s : Stock ρ) : ∃ t, g.table? s c.entity.kind = some (c.entity, t) := by
  unfold Engine.table?
  split
  · rename_i hkind
    rw [hg.kind c hc hkind]
    exact ⟨s.rows, rfl⟩
  · rw [hc]
    exact ⟨s.categories, by simp [Option.filter]⟩

theorem Declares.options (hg : g.Declares) {c : CategoryResolver ρ} (hc : g.resolver = some c)
    (name : String) : (c.options name).Declared c.entity where
  filter := by
    intro condition hcondition
    rw [List.mem_singleton.1 hcondition]
    exact hg.name c hc
  order := by
    intro x hx
    rw [List.mem_singleton.1 hx]
    exact c.entity.hasColumn_keyColumn
  relations := nofun

/-- There is a category of a name exactly if the options for the name find a key. -/
theorem hasCategory_iff {c : CategoryResolver ρ} (hc : g.resolver = some c) {e : Entity ρ}
    {t : Table ρ Unit} (ht : g.table? s c.entity.kind = some (e, t)) {name : String} {keys : List Key}
    (hkeys : t.findKeys e (c.options name) = .ok keys) : g.HasCategory s name ↔ keys ≠ [] := by
  have haccepts : ∀ row, Filter.accepts (c.options name).filter e row = true ↔
      e.value row c.nameColumn = some (.text name) := by
    intro row
    cases hv : e.value row c.nameColumn <;>
      simp [CategoryResolver.options, Filter.accepts, Condition.holds, Comparison.holds, hv]
  have hnil := t.findKeys_eq_nil_iff rfl rfl (by decide) hkeys
  constructor
  · rintro ⟨c', e', t', hc', ht', row, hrow, hname⟩ hkeys
    obtain rfl := Option.some.inj (hc.symm.trans hc')
    obtain ⟨rfl, rfl⟩ := Prod.mk.inj (Option.some.inj (ht.symm.trans ht'))
    exact absurd ((haccepts row).2 hname) (Bool.eq_false_iff.1 (hnil.1 hkeys row hrow))
  · intro hne
    by_contra hnone
    refine hne (hnil.2 fun row hrow => Bool.eq_false_iff.2 fun hrow' => hnone ?_)
    exact ⟨c, e, t, hc, ht, row, hrow, (haccepts row).1 hrow'⟩

theorem Comes.categoryOutcome (hg : g.Declares) {category : Option String}
    {x : Except QueryError (Option Filter)} (h : g.Comes s (g.categoryFilter category).run x) :
    g.CategoryOutcome s category x := by
  cases category with
  | none =>
    cases h
    exact .found nofun nofun nofun
  | some name =>
    cases hcolumn : g.entity.categoryColumn with
    | none =>
      rw [categoryFilter, hcolumn] at h
      cases h
      exact .refused rfl (.inl hcolumn)
    | some column =>
      cases hresolver : g.resolver with
      | none =>
        rw [categoryFilter, hcolumn, hresolver] at h
        cases h
        exact .refused rfl (.inr hresolver)
      | some c =>
        have hset : ¬ (g.entity.categoryColumn = none ∨ g.resolver = none) := by
          simp [hcolumn, hresolver]
        obtain ⟨t, htable⟩ := hg.table? hresolver s
        obtain ⟨keys, hkeys⟩ := t.findKeys_of_declared (hg.options hresolver name)
        have hnone := hasCategory_iff hresolver htable hkeys
        rw [categoryFilter, hcolumn, hresolver] at h
        obtain ⟨y, hy, hx⟩ := comes_bind.1 h
        -- The table of the names is asked once, and it does not fail.
        have hyeq : y = .ok keys := by
          cases hy with | @ask _ _ r _ answer rest =>
          obtain rfl : r = .ok keys := by
            rw [answer]
            show (g.table? s c.entity.kind).elim _ _ = _
            rw [htable]
            exact hkeys
          cases rest
          rfl
        subst hyeq
        cases hx
        cases keys with
        | nil => exact .missing rfl (fun h => hnone.1 h rfl) hset
        | cons k keys =>
          refine .found ?_ ?_ fun _ => hset
          · intro condition hcondition
            rw [List.mem_singleton.1 hcondition]
            exact hg.category column hcolumn
          · rintro _ ⟨⟩
            exact hnone.2 (List.cons_ne_nil k keys)

/-! ## Requests -/

/-- A page by a wrong number, or in a wrong order, is refused. -/
theorem Comes.refused_offsetPage {f : Filter} {orderBy : Option Order} {fields : Selection} {page : UInt32}
    {size : Option UInt32} {x : Resolved ρ}
    (h : g.Comes s (g.offsetPage f orderBy fields page size).run x)
    (hwrong : page = 0 ∨ ∃ o ∈ orderBy, g.entity.hasColumn o.column = false) :
    ∃ reason, x = .error (.malformed reason) := by
  by_cases hpage : page = 0
  · rw [offsetPage, Limits.window, if_pos hpage] at h
    cases h
    exact ⟨_, rfl⟩
  · obtain ⟨o, ho, hundeclared⟩ := hwrong.resolve_left hpage
    obtain rfl := Option.mem_def.1 ho
    rw [offsetPage, Limits.window, if_neg hpage] at h
    have horder : g.pageOrder (some o) = Query.refuse (.unknownOrder g.entity.segment o.column) := by
      simp only [pageOrder, hundeclared, Bool.not_false, if_true]
    replace h : g.Comes s (g.pageOrder (some o) >>= fun order => _).run x := h
    rw [horder] at h
    cases h
    exact ⟨_, rfl⟩

/-- What is wrong with a page makes no difference to other requests. -/
theorem not_mispaged_of_ne {r : Request} {mode : Mode} (hmode : r.mode = .ok mode)
    (hne : ∀ page size, mode ≠ .page (.offset page size)) : ¬ g.Mispaged r := by
  rintro ⟨page, size, hpage, -⟩
  rw [hmode] at hpage
  exact hne page size (Except.ok.inj hpage)

theorem not_refuses {r : Request} (hfree : ¬ r.Conflicting) (hcategory : ¬ g.Uncategorized r)
    (hpage : g.Mispaged r → ∃ name ∈ r.category, ¬ g.HasCategory s name) : ¬ g.Refuses s r := by
  rintro (h | h | ⟨h, hknown⟩)
  · exact hfree h
  · exact hcategory h
  · obtain ⟨name, hname, hnone⟩ := hpage h
    exact hnone (hknown name hname)

/-- Whether a result is the right one: a refusal if the request is refused, and an answer otherwise. -/
def Decided (g : Engine ρ) (s : Stock ρ) (r : Request) (x : Resolved ρ) : Prop :=
  (g.Refuses s r ∧ ∃ reason, x = .error (.malformed reason)) ∨
    (¬ g.Refuses s r ∧ ∃ answer, x = .ok answer)

/-- Before anything else it is found out whether there is the category. -/
theorem Comes.decided_category (hg : g.Declares) {r : Request} (hfree : ¬ r.Conflicting)
    (hmode : ∀ keys, r.mode ≠ .ok (.ids keys)) {a : Resolution ρ}
    {next : Filter → Query ρ (Resolution ρ)} {x : Resolved ρ}
    (h : g.Comes s (g.categoryFilter r.category >>= fun
      | none => pure a
      | some f => next f).run x)
    (hnext : ∀ f : Filter, (∀ c ∈ f, g.entity.hasColumn c.column = true) →
      (∀ name ∈ r.category, g.HasCategory s name) → ¬ g.Uncategorized r →
      g.Comes s (next f).run x → g.Decided s r x) : g.Decided s r x := by
  obtain ⟨y, hy, hx⟩ := comes_bind.1 h
  cases Comes.categoryOutcome hg hy with
  | refused named unset =>
    cases hx
    exact .inl ⟨.inr (.inl ⟨hmode, named, unset⟩), _, rfl⟩
  | missing named unknown set =>
    cases hx
    exact .inr ⟨not_refuses hfree (fun h => set h.2.2) fun _ => ⟨_, named, unknown⟩, _, rfl⟩
  | found declared known set => exact hnext _ declared known (fun h => set h.2.1 h.2.2) hx

/-- A request that is refused comes to a refusal, and every other one to an answer. -/
theorem Comes.decided (hg : g.Declares) {r : Request} {x : Resolved ρ}
    (h : g.Comes s (g.resolve r).run x) : g.Decided s r x := by
  have hfields : ∀ name ∈ (Selection.ofFields g.entity (r.fields.getD [])).relations,
      g.entity.hasRelation name = true := (Selection.declared_ofFields _ _).relations
  obtain ⟨y, hy, hx⟩ := comes_bind.1 h
  obtain rfl : y = r.mode := by
    cases hy
    rfl
  rcases r.mode_cases with ⟨hconflict, hmode⟩ | ⟨hfree, mode, hmode⟩
  · rw [hmode] at hx
    cases hx
    exact .inl ⟨.inl hconflict, _, rfl⟩
  rw [hmode] at hx
  cases mode with
  | ids keys =>
    refine .inr ⟨not_refuses hfree (fun hcategory => hcategory.1 keys hmode)
      (fun hpage => absurd hpage (not_mispaged_of_ne hmode (by simp))), ?_⟩
    exact Succeeds.andThen (.loadMany g s keys) (fun items => .pure g s _) x hx
  | random n =>
    have hpage : ¬ g.Mispaged r := not_mispaged_of_ne hmode (by simp)
    replace hx : g.Comes s (g.categoryFilter r.category >>= fun
      | none => pure { items := [] }
      | some f => g.sample f n).run x := hx
    refine hx.decided_category hg hfree (by simp [hmode]) fun f hf hknown hcategory hx => ?_
    exact .inr ⟨not_refuses hfree hcategory fun h => absurd h hpage, Succeeds.sample hf n x hx⟩
  | page p =>
    cases p with
    | cursor after first =>
      have hpage : ¬ g.Mispaged r := not_mispaged_of_ne hmode (by simp)
      replace hx : g.Comes s (g.categoryFilter r.category >>= fun
        | none => pure (emptyFor (.cursor after first))
        | some f => g.cursorPage f (Selection.ofFields g.entity (r.fields.getD [])) after first).run x := hx
      refine hx.decided_category hg hfree (by simp [hmode]) fun f hf hknown hcategory hx => ?_
      exact .inr ⟨not_refuses hfree hcategory fun h => absurd h hpage,
        Succeeds.cursorPage hf hfields after first x hx⟩
    | offset page size =>
      replace hx : g.Comes s (g.categoryFilter r.category >>= fun
        | none => pure (emptyFor (.offset page size))
        | some f => g.offsetPage f r.orderBy (Selection.ofFields g.entity (r.fields.getD [])) page size).run x :=
        hx
      refine hx.decided_category hg hfree (by simp [hmode]) fun f hf hknown hcategory hx => ?_
      by_cases hwrong : page = 0 ∨ ∃ o ∈ r.orderBy, g.entity.hasColumn o.column = false
      · exact .inl ⟨.inr (.inr ⟨⟨page, size, hmode, hwrong⟩, hknown⟩), hx.refused_offsetPage hwrong⟩
      · obtain ⟨hnumber, horder⟩ := not_or.1 hwrong
        have hpage : ¬ g.Mispaged r := by
          rintro ⟨page', size', hmode', hwrong'⟩
          rw [hmode] at hmode'
          cases hmode'
          exact hwrong hwrong'
        refine .inr ⟨not_refuses hfree hcategory fun h => absurd h hpage, ?_⟩
        refine Succeeds.offsetPage hf hfields (fun o ho => ?_) hnumber size x hx
        cases hcolumn : g.entity.hasColumn o.column with
        | true => rfl
        | false => exact absurd ⟨o, ho, hcolumn⟩ horder

theorem Decided.refused_iff {r : Request} {x : Resolved ρ} (h : g.Decided s r x) :
    ((∃ reason, x = .error (.malformed reason)) ↔ g.Refuses s r) ∧
      ((∃ answer, x = .ok answer) ↔ ¬ g.Refuses s r) := by
  rcases h with ⟨hrefuses, reason, rfl⟩ | ⟨hrefuses, answer, rfl⟩
  · exact ⟨⟨fun _ => hrefuses, fun _ => ⟨reason, rfl⟩⟩, ⟨nofun, fun hnot => absurd hrefuses hnot⟩⟩
  · exact ⟨⟨nofun, fun hyes => absurd hyes hrefuses⟩, ⟨fun _ => hrefuses, fun _ => ⟨answer, rfl⟩⟩⟩

end Engine

namespace Desk

variable {ρ : Type} {u : Setup ρ} {d : Desk ρ}

/-- What comes of a request at a desk comes of it on the stock alone, where its fields make no difference. -/
theorem decided_of_carries (hlimit : u.config.fetchTimeout = none) (hdeclares : u.engine.Declares)
    (hd : Coherent u d) {r : Request} {x : Resolved ρ} {d' : Desk ρ}
    (h : u.Carries (u.engine.resolve r).run d x d') : u.engine.Decided d.stock r x := by
  have hrun := ((Realizes.resolve hlimit r).agrees d x d' hd h).2
  have hcomes := u.engine.comes_run (s := d.stock) rfl rfl (u.engine.resolve { r with fields := none }).run
  rw [hrun] at hcomes
  exact hcomes.decided hdeclares

/-- Every request is answered at a desk. It is malformed exactly if it asks for keys and for a random
sample, or names a category although there is no telling categories, or asks for a page zero or in the order
of an undeclared column and its category, if it names one, is there. It has an answer otherwise. -/
theorem malformed_iff (hlimit : u.config.fetchTimeout = none) (hdeclares : u.engine.Declares)
    (hd : Coherent u d) (r : Request) :
    (∃ x d', u.Carries (u.engine.resolve r).run d x d') ∧
      ∀ x d', u.Carries (u.engine.resolve r).run d x d' →
        ((∃ reason, x = .error (.malformed reason)) ↔ u.engine.Refuses d.stock r) ∧
          ((∃ answer, x = .ok answer) ↔ ¬ u.engine.Refuses d.stock r) := by
  refine ⟨(Realizes.resolve hlimit r).returns d hd, fun x d' hcarries => ?_⟩
  exact (decided_of_carries hlimit hdeclares hd hcarries).refused_iff

/-! ## The newsroom's articles -/

theorem declares_newsroom : (newsroom {}).engine.Declares where
  category := by
    rintro _ ⟨⟩
    decide
  name := by
    rintro _ ⟨⟩
    decide
  kind := by
    rintro _ ⟨⟩ hkind
    exact absurd hkind (by decide)

/-- A desk with five articles and some categories. -/
def deskWith (categories : List Newsroom.Item) : Desk Newsroom.Item :=
  (newsroom {}).fresh (Newsroom.articlesUpTo 5) categories (.script [] 0 .identity)

/-- A request for page zero. -/
def pageZero (category : Option String) : Request := { page := some (.offset 0 none), category }

theorem mispaged_pageZero (category : Option String) : (newsroom {}).engine.Mispaged (pageZero category) :=
  ⟨0, none, rfl, .inl rfl⟩

/-- Page zero of all articles is refused. -/
theorem malformed_iff_pageZero :
    (newsroom {}).config.fetchTimeout = none ∧ (newsroom {}).engine.Declares ∧
      Coherent (newsroom {}) (deskWith []) ∧
      ∃ d' reason, (newsroom {}).Carries ((newsroom {}).engine.resolve (pageZero none)).run
        (deskWith []) (.error (.malformed reason)) d' := by
  have hd : Coherent (newsroom {}) (deskWith []) := coherent_fresh _ _ _ _
  obtain ⟨⟨x, d', hcarries⟩, hall⟩ := malformed_iff rfl declares_newsroom hd (pageZero none)
  obtain ⟨reason, rfl⟩ := (hall x d' hcarries).1.2 (.inr (.inr ⟨mispaged_pageZero none, nofun⟩))
  exact ⟨rfl, declares_newsroom, hd, d', reason, hcarries⟩

theorem hasCategory_deskWith {categories : List Newsroom.Item} {name : String} :
    (newsroom {}).engine.HasCategory (deskWith categories).stock name ↔
      ∃ row ∈ (deskWith categories).stock.categories.rows.values,
        Newsroom.categories.value row "name" = some (.text name) := by
  have htable : (newsroom {}).engine.table? (deskWith categories).stock Newsroom.categories.kind =
      some (Newsroom.categories, (deskWith categories).stock.categories) := rfl
  constructor
  · rintro ⟨c, e, t, hc, ht, hrow⟩
    obtain rfl := Option.some.inj hc
    obtain ⟨rfl, rfl⟩ := Prod.mk.inj (Option.some.inj (htable.symm.trans ht))
    exact hrow
  · intro hrow
    exact ⟨_, _, _, rfl, htable, hrow⟩

/-- Page zero of a category is refused if there is the category, but it is empty if there is not. So it
depends on the names in a table whether the request is refused. -/
theorem answered_without_category :
    (newsroom {}).engine.Mispaged (pageZero (some "news")) ∧
      (∃ answer d', (newsroom {}).Carries ((newsroom {}).engine.resolve (pageZero (some "news"))).run
        (deskWith []) (.ok answer) d') ∧
      ∃ reason d', (newsroom {}).Carries ((newsroom {}).engine.resolve (pageZero (some "news"))).run
        (deskWith [.category { id := 1, name := "news" }]) (.error (.malformed reason)) d' := by
  have hdecided : ∀ categories, ∃ x d', (newsroom {}).engine.Decided (deskWith categories).stock
      (pageZero (some "news")) x ∧ (newsroom {}).Carries
        ((newsroom {}).engine.resolve (pageZero (some "news"))).run (deskWith categories) x d' := by
    intro categories
    have hd : Coherent (newsroom {}) (deskWith categories) := coherent_fresh _ _ _ _
    obtain ⟨x, d', hcarries⟩ := (Realizes.resolve rfl (pageZero (some "news"))).returns _ hd
    exact ⟨x, d', decided_of_carries rfl declares_newsroom hd hcarries, hcarries⟩
  have hmispaged := mispaged_pageZero (some "news")
  refine ⟨hmispaged, ?_, ?_⟩
  · obtain ⟨x, d', hx, hcarries⟩ := hdecided []
    have hnone : ¬ (newsroom {}).engine.HasCategory (deskWith []).stock "news" := by
      rw [hasCategory_deskWith]
      decide +kernel
    rcases hx with ⟨hrefuses, -⟩ | ⟨-, answer, rfl⟩
    · rcases hrefuses with h | h | h
      · exact absurd h.1 (by simp [pageZero])
      · exact absurd h.2.2 (by simp [newsroom, Newsroom.articles])
      · exact absurd (h.2 "news" rfl) hnone
    · exact ⟨answer, d', hcarries⟩
  · obtain ⟨x, d', hx, hcarries⟩ := hdecided [.category { id := 1, name := "news" }]
    have hsome : (newsroom {}).engine.HasCategory
        (deskWith [.category { id := 1, name := "news" }]).stock "news" := by
      rw [hasCategory_deskWith]
      decide +kernel
    have hrefuses : (newsroom {}).engine.Refuses
        (deskWith [.category { id := 1, name := "news" }]).stock (pageZero (some "news")) := by
      refine .inr (.inr ⟨hmispaged, ?_⟩)
      rintro _ ⟨⟩
      exact hsome
    rcases hx with ⟨-, reason, rfl⟩ | ⟨hnot, -⟩
    · exact ⟨reason, d', hcarries⟩
    · exact absurd hrefuses hnot

end Desk

end ReadThrough
