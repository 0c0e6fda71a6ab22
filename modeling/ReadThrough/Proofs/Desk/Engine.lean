import ReadThrough.Proofs.Desk.Carrying
import ReadThrough.Proofs.Query.Collect
import ReadThrough.Proofs.Query.Selection
/-!
# What a desk answers to requests

Whole rows are fetched when relations are asked for, and keys otherwise, whose rows are then loaded. Both
come to the same (`Realizes.fetchWindow`), since every row of a table is found under its key and the
relations that a selection keeps are declared. So every request is answered, and the fields that it names
make no difference (`Realizes.resolve`).
-/

namespace ReadThrough

variable {ρ ω : Type}

/-! ## Rows and their keys -/

/-- What the loads of keys are answered, taken together, is the rows of the table under the keys. -/
theorem Query.collect_get? (t : Table ρ ω) (keys : List Key) :
    collect (keys.map fun k => .ok (t.get? k)) = .ok (t.findByIds keys) := by
  have h := collect_ok (keys.map t.get?)
  rw [List.map_map, List.filterMap_map] at h
  exact h

/-- The rows of a page are found again by their keys. -/
theorem Table.WellKeyed.findByIds_of_findMany {e : Entity ρ} {t : Table ρ ω} (ht : t.WellKeyed e)
    {o : FindOptions} {rows : List ρ} (h : t.findMany e o = .ok rows) :
    t.findByIds (rows.map e.key) = rows := by
  have hsame : rows.filterMap (fun row => t.get? (e.key row)) = rows.filterMap some :=
    List.filterMap_congr fun row hrow => ht.get?_of_findMany h hrow
  rw [Table.findByIds, List.filterMap_map]
  exact hsame.trans (List.filterMap_some)

namespace FindOptions

/-- The options without hints about what the caller will look at. -/
def plain (o : FindOptions) : FindOptions := { o with relations := [], select := none }

theorem check_plain {o : FindOptions} {e : Entity ρ}
    (h : ∀ name ∈ o.relations, e.hasRelation name = true) : o.plain.check e = o.check e := by
  have hnone : o.relations.find? (!e.hasRelation ·) = none := by
    refine List.find?_eq_none.2 fun name hname => ?_
    rw [h name hname]
    nofun
  rw [check, check, hnone]
  rfl

end FindOptions

theorem Table.findMany_plain {e : Entity ρ} {t : Table ρ ω} {o : FindOptions}
    (h : ∀ name ∈ o.relations, e.hasRelation name = true) :
    t.findMany e o.plain = t.findMany e o := by
  rw [findMany, findMany, FindOptions.check_plain h]
  rfl

namespace Desk

variable {u : Setup ρ} {d : Desk ρ}

/-! ## Windows -/

/-- On the stock alone, loads find the rows of the table. -/
theorem run_loadMany (g : Engine ρ) (s : Stock ρ) (keys : List Key) :
    (Query.loadMany keys : Query ρ (List ρ)).run.run g.answer s = (.ok (s.rows.findByIds keys), s) := by
  show (Except.mapError _ (Query.collect (keys.map fun k => .ok (s.rows.get? k))), s) = _
  rw [Query.collect_get?]
  rfl

/-- The keys that are found are those of the rows that would be. -/
theorem run_findKeys (g : Engine ρ) (s : Stock ρ) (o : FindOptions) :
    (Query.findKeys g.entity.kind o : Query ρ (List Key)).run.run g.answer s =
      (((s.rows.findMany g.entity o).map (·.map g.entity.key)).mapError .store, s) := by
  have htable : g.table? s g.entity.kind = some (g.entity, s.rows) := if_pos rfl
  show (Except.mapError _ (id ((g.table? s _).elim _ _)), _) = _
  rw [htable]
  rfl

/-- Finding keys and loading their rows is fetching the rows. -/
theorem run_fetchWindow {g : Engine ρ} {s : Stock ρ} (hs : s.rows.WellKeyed g.entity) (o : FindOptions) :
    (g.fetchWindow o {}).run.run g.answer s = ((s.rows.findMany g.entity o).mapError .store, s) := by
  show ((Query.findKeys g.entity.kind o : Query ρ (List Key)).run >>=
    ExceptT.bindCont Query.loadMany).run g.answer s = _
  rw [Plan.run_bind, run_findKeys]
  cases hrows : s.rows.findMany g.entity o with
  | error e => rfl
  | ok rows =>
    show (Query.loadMany (rows.map g.entity.key) : Query ρ (List ρ)).run.run g.answer s = _
    rw [run_loadMany, hs.findByIds_of_findMany hrows]
    rfl

/-- The plan that fetches whole rows, and puts them into the cache unless there has been an invalidation
since an epoch. -/
def fetchRows (o : FindOptions) (epoch : Epoch) : Plan ρ (Except QueryError (List ρ)) :=
  .ask (.findMany o) fun answer => match answer with
    | .ok rows => .ask (.prime rows epoch) fun _ => .done (.ok rows)
    | .error e => .done (.error (.store e))

theorem fetchWindow_of_relations {g : Engine ρ} {o : FindOptions} {s : Selection}
    (h : s.hasRelations = true) : (g.fetchWindow o s).run = .ask .epoch (fetchRows o) := by
  rw [Engine.fetchWindow, if_pos h]
  show Plan.ask _ _ = _
  congr 1
  funext epoch
  show Plan.ask _ _ = Plan.ask _ _
  congr 1
  funext answer
  cases answer <;> rfl

/-- Rows of the table may go into the cache. -/
theorem Coherent.of_prime (hd : Coherent u d) {rows : List ρ} {epoch : Epoch} {d' : Desk ρ}
    (hrows : ∀ row ∈ rows, d.stock.rows.get? (u.engine.entity.key row) = some row)
    (h : u.Answers d (.prime rows epoch) () d') : Coherent u d' ∧ d'.stock = d.stock := by
  cases h with
  | stock _ _ _ given => exact absurd rfl (given rows epoch)
  | prime =>
    refine ⟨hd.withCache ?_, rfl⟩
    split
    · exact hd.steady.cache.keepAllIfCurrent hrows _ _
    · exact hd.steady.cache

namespace Realizes

/-- It does not matter to the stock what the epoch is. -/
theorem askEpoch {α : Type} (hlimit : u.config.fetchTimeout = none) {next : Epoch → Plan ρ α}
    {p : Plan ρ α} (h : ∀ epoch, Realizes u (next epoch) p) : Realizes u (.ask .epoch next) p where
  returns := by
    intro d hd
    obtain ⟨a, d', hcarries⟩ := (h _).returns d hd
    exact ⟨a, d', .ask (idles_self u d) .epoch hcarries⟩
  agrees := by
    intro d a d' hd hcarries
    cases hcarries with | ask idle answer rest =>
    obtain ⟨hd₁, hstock⟩ := hd.of_idles hlimit idle
    rw [← hstock]
    cases answer with
    | stock _ _ known => exact absurd rfl known
    | epoch => exact (h _).agrees _ a d' hd₁ rest

variable (hlimit : u.config.fetchTimeout = none)
include hlimit

theorem fetchRows (o : FindOptions) (epoch : Epoch) :
    Realizes u (fetchRows o epoch) (Query.tryAsk (.findMany o) id : Query ρ (List ρ)).run where
  returns := by
    intro d hd
    have hanswer : u.Answers d (.findMany o) (d.stock.rows.findMany u.engine.entity o) d :=
      .stock (.findMany o) nofun nofun nofun
    cases hrows : d.stock.rows.findMany u.engine.entity o with
    | error e =>
      rw [hrows] at hanswer
      exact ⟨_, d, .ask (idles_self u d) hanswer .done⟩
    | ok rows =>
      rw [hrows] at hanswer
      exact ⟨_, _, .ask (idles_self u d) hanswer
        (.ask (idles_self u d) (.prime rows epoch) .done)⟩
  agrees := by
    intro d a d' hd hcarries
    cases hcarries with | @ask _ _ _ d₁ d₂ _ answer _ idle hanswer rest =>
    obtain ⟨hd₁, hstock⟩ := hd.of_idles hlimit idle
    obtain ⟨hd₂, hrun⟩ := hd₁.of_answers hlimit (q := .findMany o) nofun nofun hanswer
    have hrows : d.stock.rows.findMany u.engine.entity o = answer := by
      rw [← hstock]
      exact congrArg Prod.fst hrun
    have hsame : d₂.stock = d.stock := by
      rw [← hstock]
      exact (congrArg Prod.snd hrun).symm
    have hgoal : (Query.tryAsk (.findMany o) id : Query ρ (List ρ)).run.run u.engine.answer d.stock =
        (answer.mapError .store, d.stock) := by
      rw [← hrows]
      rfl
    rw [hgoal]
    cases answer with
    | error e =>
      cases rest
      exact ⟨hd₂, by rw [hsame]; rfl⟩
    | ok rows =>
      -- The service may have worked before the rows go into the cache, but the table has stayed.
      cases rest with | @ask _ _ _ d₃ d₄ _ _ _ idle' hprime hdone =>
      cases hdone
      obtain ⟨hd₃, hstock'⟩ := hd₂.of_idles hlimit idle'
      have htable : ∀ row ∈ rows, d₃.stock.rows.get? (u.engine.entity.key row) = some row := by
        intro row hrow
        rw [hstock', hsame]
        exact hd.keyed.get?_of_findMany hrows hrow
      obtain ⟨hd₄, hstock''⟩ := hd₃.of_prime htable hprime
      exact ⟨hd₄, by rw [hstock'', hstock', hsame]; rfl⟩

/-- Whatever relations are asked for, a window comes to the same. -/
theorem fetchWindow {o : FindOptions} {s : Selection} (ho : o.relations = s.relations)
    (hs : ∀ name ∈ s.relations, u.engine.entity.hasRelation name = true) :
    Realizes u (u.engine.fetchWindow o s).run (u.engine.fetchWindow o.plain {}).run := by
  have hplain : ∀ d, Coherent u d →
      (u.engine.fetchWindow o.plain {}).run.run u.engine.answer d.stock =
        ((d.stock.rows.findMany u.engine.entity o).mapError .store, d.stock) := by
    intro d hd
    rw [run_fetchWindow hd.keyed, Table.findMany_plain (ho ▸ hs)]
  by_cases h : s.hasRelations = true
  · rw [fetchWindow_of_relations h]
    exact (askEpoch hlimit fun epoch => fetchRows hlimit o epoch).congr fun d hd => (hplain d hd).symm
  -- Without relations the window is fetched in the way of the stock.
  · have hkeys : (u.engine.fetchWindow o s).run = (u.engine.fetchWindow o {}).run := by
      rw [Engine.fetchWindow, if_neg h]
      rfl
    have hself : Realizes u (u.engine.fetchWindow o {}).run (u.engine.fetchWindow o {}).run :=
      andThen (findKeys hlimit _ o) fun keys => loadMany hlimit keys
    rw [hkeys]
    exact hself.congr fun d hd => (run_fetchWindow hd.keyed o).trans (hplain d hd).symm

/-! ## Requests -/

theorem categoryFilter (name : Option String) :
    Realizes u (u.engine.categoryFilter name).run (u.engine.categoryFilter name).run := by
  unfold Engine.categoryFilter
  split
  · exact pure u _
  · split
    · exact refuse u _
    · exact refuse u _
    · exact andThen (findKeys hlimit _ _) fun keys => pure u _

theorem cursorStart (after : Option String) :
    Realizes u (Engine.cursorStart after : Query ρ (Option Key)).run
      (Engine.cursorStart after : Query ρ (Option Key)).run := by
  unfold Engine.cursorStart
  split
  · exact pure u _
  · split
    · exact pure u _
    · exact andThen (loadMany hlimit _) fun found => pure u _

theorem sample (filter : Filter) (n : UInt32) :
    Realizes u (u.engine.sample filter n).run (u.engine.sample filter n).run := by
  refine andThen (count hlimit filter) fun total => ?_
  refine andThen (unit hlimit) fun r => ?_
  refine andThen (findKeys hlimit _ _) fun keys => ?_
  refine andThen (shuffle hlimit keys) fun keys => ?_
  exact andThen (loadMany hlimit _) fun items => pure u _

omit hlimit in
theorem pageOrder (u : Setup ρ) (orderBy : Option Order) :
    Realizes u (u.engine.pageOrder orderBy).run (u.engine.pageOrder orderBy).run := by
  unfold Engine.pageOrder
  split
  · exact pure u _
  · split
    · exact refuse u _
    · split
      · exact pure u _
      · exact pure u _

variable {s : Selection} (hs : ∀ name ∈ s.relations, u.engine.entity.hasRelation name = true)
include hs

theorem offsetPage (filter : Filter) (orderBy : Option Order) (page : UInt32) (size : Option UInt32) :
    Realizes u (u.engine.offsetPage filter orderBy s page size).run
      (u.engine.offsetPage filter orderBy {} page size).run := by
  unfold Engine.offsetPage
  split
  · exact refuse u _
  · refine andThen (pageOrder u orderBy) fun order => ?_
    exact andThen (fetchWindow hlimit rfl hs) fun items => pure u _

theorem cursorPage (filter : Filter) (after : Option String) (first : Option UInt32) :
    Realizes u (u.engine.cursorPage filter s after first).run
      (u.engine.cursorPage filter {} after first).run := by
  refine andThen (count hlimit filter) fun total => ?_
  refine andThen (cursorStart hlimit after) fun start => ?_
  exact andThen (fetchWindow hlimit rfl hs) fun items => pure u _

omit hs in
/-- Every request is answered, and the fields that it names make no difference to the answer. -/
theorem resolve (r : Request) :
    Realizes u (u.engine.resolve r).run (u.engine.resolve { r with fields := none }).run := by
  have hdeclared : ∀ name ∈ (Selection.ofFields u.engine.entity (r.fields.getD [])).relations,
      u.engine.entity.hasRelation name = true := (Selection.declared_ofFields _ _).relations
  have hmode : Realizes u (liftM r.mode : Query ρ Mode).run (liftM r.mode : Query ρ Mode).run :=
    done u r.mode
  refine andThen hmode fun mode => ?_
  cases mode with
  | ids keys => exact andThen (loadMany hlimit keys) fun items => pure u _
  | random n =>
    refine andThen (categoryFilter hlimit r.category) fun filter => ?_
    cases filter with
    | none => exact pure u _
    | some filter => exact sample hlimit filter n
  | page p =>
    refine andThen (categoryFilter hlimit r.category) fun filter => ?_
    cases filter with
    | none => exact pure u _
    | some filter =>
      cases p with
      | offset page size => exact offsetPage hlimit hdeclared filter r.orderBy page size
      | cursor after first => exact cursorPage hlimit hdeclared filter after first

end Realizes

end Desk

end ReadThrough
