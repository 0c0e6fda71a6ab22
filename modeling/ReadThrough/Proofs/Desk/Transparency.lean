import ReadThrough.Newsroom
import ReadThrough.Proofs.Desk.Engine
/-!
# Caching does not show

A desk that begins coherent stays so, whatever it does, and what comes of its deeds is what comes of them
on the stock alone (`Coherent.of_performs`). So two desks that differ in how they cache and gather loads,
and in the fields that the requests name, come to the same answers (`transparency`).
-/

namespace ReadThrough

namespace Desk

variable {ρ : Type} {u : Setup ρ} {d d' : Desk ρ}

/-- However far a desk has come with what it is to do, it can go on to the end. -/
def Setup.Completes (u : Setup ρ) (d : Desk ρ) (deeds : List (Deed ρ)) : Prop :=
  ∀ before rest xs d', deeds = before ++ rest → u.Performs d before xs d' →
    ∃ ys d'', u.Performs d' rest ys d''

theorem coherent_fresh (u : Setup ρ) (rows categories : List ρ) (random : RandomSource) :
    Coherent u (u.fresh rows categories random) where
  keyed := Table.wellKeyed_ofRows (ω := Unit) u.engine.entity rows
  observed := rfl
  steady :=
    { sound := Service.sound_fresh u.service
      cache := RowCache.agrees_empty _
      flights := nofun
      undropped := rfl }
  settled := rfl

/-! ## Deeds other than answering requests -/

/-- What else happens at a desk than that it answers a request happens to its stock alone. -/
theorem perform_eq_after (u : Setup ρ) (d : Desk ρ) {deed : Deed ρ} (plain : ∀ r, deed ≠ .resolve r) :
    u.engine.perform d.stock deed = ([], (u.after d deed).stock) := by
  cases deed with
  | resolve r => exact absurd rfl (plain r)
  | change | recategorize | invalidate | clearAll | purge | pass =>
    simp only [Engine.perform, Setup.after, Setup.tell, Setup.withCache]

namespace Coherent

/-- When a row changes the desk hears of it, and lets go of the row. -/
theorem of_write (hd : Coherent u d) {w : Write ρ} {rows : Table ρ Unit} {news : List (Notice Unit)}
    (h : d.stock.rows.write? u.engine.entity w = some (rows, news)) :
    Coherent u (Setup.tell { d with stock := { d.stock with rows } } news) := by
  obtain ⟨⟨change, hnews⟩, -⟩ := Table.of_write? h
  rw [Table.notices, hd.observed] at hnews
  rw [hnews]
  have hcache := hd.steady.cache.of_write h
  exact ⟨hd.keyed.of_write? h, (Table.observers_of_write? h).trans hd.observed,
    hd.steady.of_settled hd.settled hcache, hd.settled⟩

/-- Nothing but the rows matters about the stock, and nothing is lost when more is taken out of the cache. -/
theorem tell (hd : Coherent u d) {stock : Stock ρ} (h : stock.rows = d.stock.rows)
    (news : List (Notice Unit)) : Coherent u (Setup.tell { d with stock } news) := by
  have hstock : Coherent u { d with stock } := by
    refine ⟨?_, ?_, ?_, hd.settled⟩
    · rw [h]
      exact hd.keyed
    · rw [h]
      exact hd.observed
    · rw [h]
      exact hd.steady
  refine hstock.withCache ?_
  -- One notice after another takes something out of the cache.
  have hall : ∀ (news : List (Notice Unit)) (c : RowCache ρ),
      RowCache.Agrees u.engine.entity stock.rows c →
      RowCache.Agrees u.engine.entity stock.rows
        (news.foldl (fun c n => c.invalidate n.segment (some n.key)) c) := by
    intro news
    induction news with
    | nil => exact fun c hc => hc
    | cons n news ih => exact fun c hc => ih _ (hc.invalidate n.segment (some n.key))
  exact hall news d.service.cache hstock.steady.cache

theorem change (hd : Coherent u d) (w : Write ρ) : Coherent u (u.after d (.change w)) := by
  simp only [Setup.after, Engine.change]
  cases h : d.stock.rows.write? u.engine.entity w with
  | none => exact hd.tell rfl []
  | some p => exact hd.of_write h

theorem recategorize (hd : Coherent u d) (w : Write ρ) :
    Coherent u (u.after d (.recategorize w)) := by
  simp only [Setup.after, Engine.recategorize]
  cases u.engine.resolver.bind fun r => d.stock.categories.write? r.entity w with
  | none => exact hd.tell rfl []
  | some p =>
    have hrows : ({ d.stock with categories := p.1 } : Stock ρ).rows = d.stock.rows := rfl
    exact hd.tell hrows p.2

/-- A desk that does something else than answering a request stays coherent. -/
theorem after (hd : Coherent u d) (deed : Deed ρ) : Coherent u (u.after d deed) := by
  cases deed with
  | resolve r => exact hd
  | change w => exact hd.change w
  | recategorize w => exact hd.recategorize w
  | invalidate segment k => exact hd.withCache (hd.steady.cache.invalidate segment k)
  | clearAll => exact hd.withCache (hd.steady.cache.apply_of_stores?_none 0 .clearAll fun _ => rfl)
  | purge => exact hd.withCache (hd.steady.cache.apply_of_stores?_none _ .purge fun _ => rfl)
  | pass ms =>
    have hsteady : Service.Steady u.service d.stock.rows
        { d.service with clock := d.service.clock + ms } :=
      { sound := { hd.steady.sound with }
        cache := hd.steady.cache
        flights := hd.steady.flights
        undropped := hd.steady.undropped }
    exact ⟨hd.keyed, hd.observed, hsteady, hd.settled⟩

/-! ## Everything a desk does -/

variable (hlimit : u.config.fetchTimeout = none)
include hlimit

theorem of_does (hd : Coherent u d) {deed : Deed ρ} {xs : List (Resolved ρ)}
    (h : u.Does d deed xs d') :
    Coherent u d' ∧ u.engine.perform d.stock deed = (xs, d'.stock) := by
  cases h with
  | @resolve r x _ carries =>
    obtain ⟨hd', hrun⟩ := (Realizes.resolve hlimit r).agrees d x d' hd carries
    refine ⟨hd', ?_⟩
    rw [Engine.perform, hrun]
  | other _ plain => exact ⟨hd.after deed, perform_eq_after u d plain⟩

theorem exists_does (hd : Coherent u d) (deed : Deed ρ) : ∃ xs d', u.Does d deed xs d' := by
  cases deed with
  | resolve r =>
    obtain ⟨x, d', hcarries⟩ := (Realizes.resolve hlimit r).returns d hd
    exact ⟨[x], d', .resolve hcarries⟩
  | change | recategorize | invalidate | clearAll | purge | pass =>
    exact ⟨[], _, .other _ fun r h => by cases h⟩

/-- What comes of the deeds of a desk is what comes of them on its stock alone. -/
theorem of_performs (hd : Coherent u d) {deeds : List (Deed ρ)} {xs : List (Resolved ρ)}
    (h : u.Performs d deeds xs d') :
    Coherent u d' ∧ u.engine.performAll d.stock deeds = (xs, d'.stock) := by
  induction h with
  | rest => exact ⟨hd, rfl⟩
  | deed idle does _ ih =>
    obtain ⟨hd₁, hstock⟩ := hd.of_idles hlimit idle
    obtain ⟨hd₂, hperform⟩ := hd₁.of_does hlimit does
    obtain ⟨hd₃, hrest⟩ := ih hd₂
    rw [hstock] at hperform
    refine ⟨hd₃, ?_⟩
    rw [Engine.performAll, hperform]
    simp only [hrest]

theorem exists_performs (hd : Coherent u d) (deeds : List (Deed ρ)) :
    ∃ xs d', u.Performs d deeds xs d' := by
  induction deeds generalizing d with
  | nil => exact ⟨[], d, .rest⟩
  | cons deed deeds ih =>
    obtain ⟨xs, d₁, hdoes⟩ := hd.exists_does hlimit deed
    obtain ⟨ys, d₂, hrest⟩ := ih (hd.of_does hlimit hdoes).1
    exact ⟨xs ++ ys, d₂, .deed (idles_self u d) hdoes hrest⟩

theorem completes (hd : Coherent u d) (deeds : List (Deed ρ)) : u.Completes d deeds :=
  fun _ rest _ _ _ h => (hd.of_performs hlimit h).1.exists_performs hlimit rest

end Coherent

/-! ## Two desks -/

/-- What comes of deeds on the stock alone does not depend on the fields that requests name. -/
theorem performAll_plain (g : Engine ρ) (s : Stock ρ) (deeds : List (Deed ρ)) :
    g.performAll s (deeds.map Deed.plain) = g.performAll s deeds := by
  induction deeds generalizing s with
  | nil => rfl
  | cons deed deeds ih =>
    have hdeed : g.perform s deed.plain = g.perform s deed := by
      cases deed <;> rfl
    simp only [List.map_cons, Engine.performAll, hdeed, ih]

/-- Two desks that have one engine and begin with one stock, but cache and gather loads in different ways,
do the same, but for the fields that requests name. Neither is ever stuck, and whatever the order in which
their services work, what comes of the requests is the same. -/
theorem transparency {u₁ u₂ : Setup ρ} (hengine : u₁.engine = u₂.engine)
    (h₁ : u₁.config.fetchTimeout = none) (h₂ : u₂.config.fetchTimeout = none)
    {deeds₁ deeds₂ : List (Deed ρ)} (hdeeds : deeds₁.map Deed.plain = deeds₂.map Deed.plain)
    (rows categories : List ρ) (random : RandomSource) :
    u₁.Completes (u₁.fresh rows categories random) deeds₁ ∧
      u₂.Completes (u₂.fresh rows categories random) deeds₂ ∧
      ∀ xs₁ d₁ xs₂ d₂, u₁.Performs (u₁.fresh rows categories random) deeds₁ xs₁ d₁ →
        u₂.Performs (u₂.fresh rows categories random) deeds₂ xs₂ d₂ → xs₁ = xs₂ := by
  have hd₁ := coherent_fresh u₁ rows categories random
  have hd₂ := coherent_fresh u₂ rows categories random
  refine ⟨hd₁.completes h₁ deeds₁, hd₂.completes h₂ deeds₂, ?_⟩
  intro xs₁ d₁ xs₂ d₂ hperforms₁ hperforms₂
  -- Both come to what the stock alone comes to, which knows nothing of caches and of fields.
  have hxs₁ := (hd₁.of_performs h₁ hperforms₁).2
  have hxs₂ := (hd₂.of_performs h₂ hperforms₂).2
  have hsame : u₁.engine.performAll (u₁.fresh rows categories random).stock deeds₁ =
      u₂.engine.performAll (u₂.fresh rows categories random).stock deeds₂ := by
    rw [← performAll_plain, hdeeds, performAll_plain]
    show u₁.engine.performAll (u₁.engine.stock rows categories random) deeds₂ = _
    rw [hengine]
    rfl
  calc
    xs₁ = (u₁.engine.performAll (u₁.fresh rows categories random).stock deeds₁).1 := by rw [hxs₁]
    _ = (u₂.engine.performAll (u₂.fresh rows categories random).stock deeds₂).1 := by rw [hsame]
    _ = xs₂ := by rw [hxs₂]

/-! ## The newsroom's articles -/

/-- A desk that answers requests about the newsroom's articles. -/
def newsroom (config : CacheConfig) : Setup Newsroom.Item where
  engine :=
    { entity := Newsroom.articles
      limits := {}
      resolver := some { entity := Newsroom.categories, nameColumn := "name" } }
  config := config

/-- Requests of all kinds, with changes to articles and categories in between. -/
def editing (fields : Option (List String)) : List (Deed Newsroom.Item) :=
  [.resolve { category := some "news", fields },
    .change (.update (.article { id := 2, title := "late", category := 1, views := 0, published := true })),
    .resolve { ids := some [.int 2, .int 9], fields },
    .recategorize (.insert (.category { id := 2, name := "sports" })),
    .pass 40000,
    .resolve { category := some "sports", page := some (.cursor (some "MQ") (some 2)), fields },
    .purge,
    .resolve { random := some 2, fields }]

/-- A desk with a cache and a desk without one come to the same answers. -/
theorem transparency_newsroom :
    (newsroom {}).config.fetchTimeout = none ∧
      (newsroom { enabled := false, maxBatchSize := 1 }).config.fetchTimeout = none ∧
      ∃ xs d₁ d₂,
        (newsroom {}).Performs ((newsroom {}).fresh (Newsroom.articlesUpTo 5)
          [.category { id := 1, name := "news" }] (.stream (.ofSeed 7)))
          (editing (some ["title", "category.name"])) xs d₁ ∧
        (newsroom { enabled := false, maxBatchSize := 1 }).Performs
          ((newsroom { enabled := false, maxBatchSize := 1 }).fresh (Newsroom.articlesUpTo 5)
            [.category { id := 1, name := "news" }] (.stream (.ofSeed 7)))
          (editing none) xs d₂ := by
  obtain ⟨hcached, huncached, hsame⟩ := @transparency Newsroom.Item (newsroom {})
    (newsroom { enabled := false, maxBatchSize := 1 }) rfl rfl rfl
    (editing (some ["title", "category.name"])) (editing none) rfl
    (Newsroom.articlesUpTo 5) [.category { id := 1, name := "news" }] (.stream (.ofSeed 7))
  obtain ⟨xs₁, d₁, h₁⟩ := hcached [] _ [] _ rfl .rest
  obtain ⟨xs₂, d₂, h₂⟩ := huncached [] _ [] _ rfl .rest
  obtain rfl := hsame xs₁ d₁ xs₂ d₂ h₁ h₂
  exact ⟨rfl, rfl, xs₁, d₁, d₂, h₁, h₂⟩

end Desk

end ReadThrough
