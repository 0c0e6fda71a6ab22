import ReadThrough.Proofs.Desk.Walk
/-!
# Walks lose and repeat nothing

At a desk whose tables are in memory (`Setup.inMemory`) every page of a walk is answered, the keys that it
returns are strictly increasing, and when it has come to an empty page it has returned, exactly once, every
row that was there and in the category whenever a page was asked for (`walks_exact`).
-/

namespace ReadThrough.Desk

open Std

variable {ρ : Type} {u : Setup ρ} {r : Request} {first : Option UInt32} {visits : List (Visit ρ)} {d : Desk ρ}
  {rows categories : List ρ} {random : RandomSource}

/-! ## Tables in memory -/

/-- A desk whose tables are in memory. They answer a fetch when they are asked, so a limit to the time that a
fetch may take is never reached. -/
def Setup.inMemory (u : Setup ρ) : Setup ρ := { u with config := { u.config with fetchTimeout := none } }

/-- With tables in memory, there goes on what goes on anyway, but for a store that answers too late. -/
theorem works_inMemory (u : Setup ρ) (t : Table ρ Unit) (s : Service ρ) (ev : Service.Event ρ) :
    u.inMemory.service.Works t s ev ↔ u.service.Works t s ev ∧ ∀ g, ev ≠ .settle g (.error .timeout) := by
  cases ev with
  | settle g answer =>
    constructor
    · rintro (⟨f, hf, rfl⟩ | ⟨-, hlimit⟩)
      · exact ⟨.inl ⟨f, hf, rfl⟩, fun g' h => nomatch h⟩
      · cases hlimit
    · rintro ⟨hfound | ⟨rfl, -⟩, htimely⟩
      · exact .inl hfound
      · exact absurd rfl (htimely g)
  | begin | join | drop | sleep | fire | ask | write | reply | note | read | prime | close | touch | pass =>
    exact ⟨fun h => ⟨h, nofun⟩, fun h => h.1⟩

/-- The limit makes no difference to what comes of an event. -/
theorem step_inMemory (u : Setup ρ) (s : Service ρ) (ev : Service.Event ρ) :
    u.inMemory.service.step s ev = u.service.step s ev := by
  cases ev <;> rfl

/-! ## Whole walks -/

/-- A walk is answered at every page, with so many rows at most, and the keys that it returns are strictly
increasing. When it has come to an empty page, it has returned every row exactly once that was there and in
the category whenever a page was asked for. As long as it has a cursor it can go on, whatever is done before
the next page. -/
theorem walks_exact
    (hwalk : u.inMemory.Walks r first (u.inMemory.fresh rows categories random) visits d)
    (hrows : ∀ row ∈ rows, u.engine.entity.Keyed row)
    (hwritten : ∀ v ∈ visits, ∀ w, .change w ∈ v.deeds → ∀ row ∈ w.row?, u.engine.entity.Keyed row)
    (hknown : ∀ v ∈ visits, u.engine.Knows v.stock r.category) :
    (∀ v ∈ visits, ∃ x, v.answer = .ok x ∧ x.items.length ≤ max 1 u.engine.limits.maxFirst.toNat) ∧
      (keys u.engine visits).Pairwise (fun k k' => compare k k' = .lt) ∧
      ((∃ v ∈ visits.getLast?, v.items = []) →
        ∀ k, (∀ v ∈ visits, v.Offers u.engine r.category k) → (keys u.engine visits).count k = 1) ∧
      (visits = [] ∨ (cursor visits).isSome = true → ∀ deeds, Spares u.engine visits deeds →
        ∃ v d', v.deeds = deeds ∧
          u.inMemory.Walks r first (u.inMemory.fresh rows categories random) (visits ++ [v]) d') := by
  have hwalked : Walked u.inMemory r.category visits d :=
    walked_of_walks rfl (coherent_fresh u.inMemory rows categories random)
      (fun k row h => hrows row (Table.mem_of_get?_ofRows (ω := Unit) h)) hwalk hwritten hknown
  refine ⟨?_, hwalked.sorted, ?_, ?_⟩
  · intro v hv
    obtain ⟨⟨x, hx⟩, hlength, -⟩ := hwalked.pages v hv
    rw [Visit.items, hx] at hlength
    exact ⟨x, hx, hlength⟩
  · rintro ⟨v, hv, hempty⟩ k hoffers
    have hne : visits ≠ [] := by
      rintro rfl
      cases hv
    have hnamed : named visits = none := by
      rw [named, hv, Option.bind_some, hempty]
      rfl
    have hmem : k ∈ keys u.engine visits := hwalked.mem_keys_of_over hne hnamed hoffers
    have hnodup : (keys u.engine visits).Nodup := by
      refine hwalked.sorted.imp ?_
      rintro k₁ k₂ hlt rfl
      rw [ReflOrd.compare_self] at hlt
      cases hlt
    exact List.count_eq_one_of_mem hnodup hmem
  · intro hongoing deeds hspares
    obtain ⟨xs, d₁, hperforms⟩ := hwalked.coherent.exists_performs rfl deeds
    have hd₁ := (hwalked.coherent.of_performs rfl hperforms).1
    obtain ⟨x, d₂, hdoes⟩ := hd₁.exists_resolve rfl (r.following (cursor visits) first)
    exact ⟨_, d₂, rfl, hwalk.page hongoing hspares hperforms (idles_self _ d₁) hdoes⟩

/-! ## News -/

section News

variable {config : CacheConfig} {s : Stock Newsroom.Item}

/-- The newsroom's categories: there is news only. -/
def topics : List Newsroom.Item := [.category { id := 1, name := "news" }]

/-- What is done after the first page of news: an article that is no news is removed, one is added to the news
and one moved there, and all that has been cached expires. -/
def breaking : List (Deed Newsroom.Item) :=
  [.change (.remove (.int 2)),
    .change (.insert (.article { id := 7, title := "late", category := 1, views := 0, published := true })),
    .change (.update (.article { id := 4, title := "moved", category := 1, views := 0, published := true })),
    .pass 40000]

/-- The newsroom finds news by name. -/
theorem categoryKey?_news (h : s.categories = (Table.ofRows Newsroom.categories topics).attach ()) :
    (newsroom config).engine.categoryKey? s "news" = some (.int 1) := by
  let c : CategoryResolver Newsroom.Item := { entity := Newsroom.categories, nameColumn := "name" }
  have hall : s.categories.matching Newsroom.categories (c.options "news").filter = topics := by
    rw [h]
    decide +kernel
  have hkeys : s.categories.findKeys Newsroom.categories (c.options "news") = .ok [.int 1] := by
    rw [Table.findKeys, Table.findMany_inOrder (n := 1) rfl rfl rfl rfl, Table.inOrder, hall, topics,
      List.mergeSort_singleton]
    rfl
  have htable : (newsroom config).engine.table? s Newsroom.categories.kind =
      some (Newsroom.categories, s.categories) := by
    have hkind : Newsroom.categories.kind ≠ Newsroom.articles.kind := by
      decide
    rw [Engine.table?]
    exact (if_neg hkind).trans rfl
  exact Engine.categoryKey?_eq (c := c) rfl htable hkeys

theorem knows_news (h : s.categories = (Table.ofRows Newsroom.categories topics).attach ()) :
    (newsroom config).engine.Knows s (some "news") := by
  rintro name ⟨⟩
  have hcolumn : Newsroom.articles.hasColumn "category_id" = true := by
    decide
  refine ⟨⟨"category_id", rfl, hcolumn⟩, ?_⟩
  rw [categoryKey?_news h]
  rfl

/-- Articles are news by their category. -/
theorem inCategory_news (h : s.categories = (Table.ofRows Newsroom.categories topics).attach ())
    (row : Newsroom.Item) : (newsroom config).engine.InCategory s (some "news") row ↔
      row.value "category_id" = some (.int 1) := by
  constructor
  · intro hrow
    obtain ⟨column, k, hcolumn, hk, hvalue⟩ := hrow "news" rfl
    cases hcolumn
    rw [categoryKey?_news h] at hk
    cases hk
    exact hvalue
  · rintro hvalue name ⟨⟩
    exact ⟨"category_id", .int 1, rfl, categoryKey?_news h, hvalue⟩

theorem offers_news {v : Visit Newsroom.Item} (hs : v.stock = s)
    (h : s.categories = (Table.ofRows Newsroom.categories topics).attach ()) {k : Key}
    (hk : (s.rows.get? k).bind (·.value "category_id") = some (.int 1)) :
    v.Offers (newsroom config).engine (some "news") k := by
  obtain ⟨row, hrow, hvalue⟩ := Option.bind_eq_some_iff.1 hk
  subst hs
  exact ⟨row, hrow, (inCategory_news h row).2 hvalue⟩

end News

/-- The stock of the newsroom at the start. -/
def quiet : Stock Newsroom.Item :=
  (newsroom {}).engine.stock (Newsroom.articlesUpTo 5) topics (.stream (.ofSeed 7))

/-- The stock of the newsroom later, when articles have changed. -/
def later : Stock Newsroom.Item := ((newsroom {}).engine.performAll quiet breaking).2

theorem categories_quiet : quiet.categories = (Table.ofRows Newsroom.categories topics).attach () := rfl

theorem categories_later : later.categories = (Table.ofRows Newsroom.categories topics).attach () := rfl

/-- The articles that are written hold their keys. -/
theorem keyed_breaking (w : Write Newsroom.Item) (hw : .change w ∈ breaking) (row : Newsroom.Item)
    (hrow : row ∈ w.row?) : Newsroom.articles.Keyed row := by
  simp only [breaking, List.mem_cons, Deed.change.injEq, reduceCtorEq, List.not_mem_nil, or_false] at hw
  rcases hw with rfl | rfl | rfl <;> cases hrow <;> rfl

theorem keyed_articlesUpTo : ∀ row ∈ Newsroom.articlesUpTo 5, Newsroom.articles.Keyed row := by
  unfold Entity.Keyed
  decide +kernel

/-- Three articles are news before and after. -/
theorem news_quiet_later {s : Stock Newsroom.Item} (hs : s = quiet ∨ s = later) :
    ∀ k ∈ [Key.int 1, .int 3, .int 5], (s.rows.get? k).bind (·.value "category_id") = some (.int 1) := by
  rcases hs with rfl | rfl
  · decide +kernel
  · decide +kernel

/-- The article that is removed is no news, and so the cursor after a page of news does not name it. -/
theorem spares_breaking {v : Visit Newsroom.Item} (hv : v.stock = quiet)
    (hproper : v.Proper (newsroom {}).engine (some "news")) : Spares (newsroom {}).engine [v] breaking := by
  intro row hrow hremove
  obtain ⟨hthere, hcategory⟩ := hproper.offered row (List.mem_of_getLast? hrow)
  have hkey : (newsroom {}).engine.entity.key row = .int 2 := by
    simpa [breaking] using hremove
  rw [hv, hkey] at hthere
  rw [hv] at hcategory
  have hnone : (quiet.rows.get? (.int 2)).bind (·.value "category_id") ≠ some (.int 1) := by
    decide +kernel
  rw [hthere] at hnone
  exact hnone ((inCategory_news categories_quiet row).1 hcategory)

/-- There is a walk through the news to an empty page, with the changes after its first page. -/
theorem exists_walk_news :
    ∃ visits d, (newsroom {}).inMemory.Walks { category := some "news" } (some 2)
        ((newsroom {}).inMemory.fresh (Newsroom.articlesUpTo 5) topics (.stream (.ofSeed 7))) visits d ∧
      (∃ v ∈ visits, v.deeds = breaking) ∧ (∃ v ∈ visits.getLast?, v.items = []) ∧
      ∀ v ∈ visits, (v.stock = quiet ∨ v.stock = later) ∧ (v.deeds = [] ∨ v.deeds = breaking) := by
  let u := (newsroom {}).inMemory
  have hstart := walked_start (coherent_fresh u (Newsroom.articlesUpTo 5) topics (.stream (.ofSeed 7)))
    (fun k row h => keyed_articlesUpTo row (Table.mem_of_get?_ofRows (ω := Unit) h)) (some "news")
  have hwalk₀ : u.Walks { category := some "news" } (some 2)
      (u.fresh (Newsroom.articlesUpTo 5) topics (.stream (.ofSeed 7))) [] _ := .start
  obtain ⟨v₁, d₁, hdeeds₁, hv₁, hd₁, hwalk₁, hfirst⟩ :=
    hstart.exists_page rfl hwalk₀ (.inl rfl) (fun row _ => List.not_mem_nil) nofun
      (knows_news categories_quiet)
  have hv₁ : v₁.stock = quiet := hv₁
  rw [List.nil_append] at hwalk₁ hfirst
  have hgoing : (cursor [v₁]).isSome = true :=
    hfirst.ongoing_of_offers
      (offers_news hv₁ categories_quiet (news_quiet_later (.inl rfl) _ List.mem_cons_self))
  have hlater : (u.engine.performAll d₁.stock breaking).2 = later := by
    rw [hd₁, hv₁]
    rfl
  obtain ⟨v₂, d₂, hdeeds₂, hv₂, hd₂, hwalk₂, hsecond⟩ :=
    hfirst.exists_page rfl hwalk₁ (.inr hgoing)
      (spares_breaking hv₁ (hfirst.pages v₁ List.mem_cons_self)) keyed_breaking
      (hlater ▸ knows_news categories_later)
  have hv₂ : v₂.stock = later := hv₂.trans hlater
  obtain ⟨pages, d, hwalk, hend, hpages⟩ := hsecond.exists_end rfl hwalk₂ (List.cons_ne_nil _ _) (by
    rw [hd₂, hv₂]
    exact knows_news categories_later)
  rw [hd₂, hv₂] at hpages
  refine ⟨_, d, hwalk, ⟨v₂, by simp, hdeeds₂⟩, hend, fun v hv => ?_⟩
  simp only [List.mem_append, List.mem_singleton] at hv
  rcases hv with (rfl | rfl) | hv
  · exact ⟨.inl hv₁, .inl hdeeds₁⟩
  · exact ⟨.inr hv₂, .inr hdeeds₂⟩
  · exact ⟨.inr (hpages v hv).2, .inl (hpages v hv).1⟩

/-- A walk through the news, two at a time, comes to an end and returns each article that has been news all
along exactly once, although articles change after the first page. -/
theorem walks_exact_newsroom :
    ∃ visits d, (newsroom {}).inMemory.Walks { category := some "news" } (some 2)
        ((newsroom {}).inMemory.fresh (Newsroom.articlesUpTo 5) topics (.stream (.ofSeed 7))) visits d ∧
      (∀ row ∈ Newsroom.articlesUpTo 5, Newsroom.articles.Keyed row) ∧
      (∀ v ∈ visits, ∀ w, .change w ∈ v.deeds → ∀ row ∈ w.row?, Newsroom.articles.Keyed row) ∧
      (∀ v ∈ visits, (newsroom {}).engine.Knows v.stock (some "news")) ∧
      (∃ v ∈ visits, v.deeds = breaking) ∧ (∃ v ∈ visits.getLast?, v.items = []) ∧
      ∀ k ∈ [Key.int 1, .int 3, .int 5], (keys (newsroom {}).engine visits).count k = 1 := by
  obtain ⟨visits, d, hwalk, hbreaking, hend, hall⟩ := exists_walk_news
  have hcategories : ∀ v ∈ visits,
      v.stock.categories = (Table.ofRows Newsroom.categories topics).attach () := by
    intro v hv
    rcases (hall v hv).1 with hs | hs
    · rw [hs, categories_quiet]
    · rw [hs, categories_later]
  have hwritten : ∀ v ∈ visits, ∀ w, .change w ∈ v.deeds →
      ∀ row ∈ w.row?, Newsroom.articles.Keyed row := by
    intro v hv w hw
    rcases (hall v hv).2 with hdeeds | hdeeds
    · rw [hdeeds] at hw
      cases hw
    · exact keyed_breaking w (hdeeds ▸ hw)
  have hknown : ∀ v ∈ visits, (newsroom {}).engine.Knows v.stock (some "news") :=
    fun v hv => knows_news (hcategories v hv)
  refine ⟨visits, d, hwalk, keyed_articlesUpTo, hwritten, hknown, hbreaking, hend, fun k hk => ?_⟩
  refine (walks_exact hwalk keyed_articlesUpTo hwritten hknown).2.2.1 hend k fun v hv => ?_
  exact offers_news rfl (hcategories v hv) (news_quiet_later (hall v hv).1 k hk)

end ReadThrough.Desk
