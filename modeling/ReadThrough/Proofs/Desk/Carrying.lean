import ReadThrough.Proofs.Desk.Basic
/-!
# What a desk carries out

A desk is `Coherent` if its service knows nothing but what its table has, and nothing is outstanding. A
coherent desk answers a query as the stock alone does, and is coherent afterwards (`Coherent.of_answers`).
A plan `Realizes` another if every coherent desk can carry it out, and comes in every way to what the other
comes to on the stock alone; plans that do so can be put together (`Realizes.ask`, `Realizes.bind`).
-/

namespace ReadThrough.Desk

variable {ρ α β : Type} {u : Setup ρ} {d d' d'' : Desk ρ}

/-- A desk whose service knows nothing but what the table has, and has nothing to answer. -/
structure Coherent (u : Setup ρ) (d : Desk ρ) : Prop where
  keyed : d.stock.rows.WellKeyed u.engine.entity
  observed : d.stock.rows.observers = [()]
  steady : Service.Steady u.service d.stock.rows d.service
  settled : d.service.outstanding = []

/-- A plan comes, on every coherent desk, to what another plan comes to on the stock alone. -/
structure Realizes (u : Setup ρ) (p p' : Plan ρ α) : Prop where
  returns : ∀ d, Coherent u d → ∃ a d', u.Carries p d a d'
  agrees : ∀ d a d', Coherent u d → u.Carries p d a d' →
    Coherent u d' ∧ p'.run u.engine.answer d.stock = (a, d'.stock)

/-! ## Answers -/

theorem idles_self (u : Setup ρ) (d : Desk ρ) : u.Idles d d := .work .idle

namespace Coherent

/-- All that matters about the cache is that it agrees with the table. -/
theorem withCache (hd : Coherent u d) {cache : RowCache ρ}
    (h : RowCache.Agrees u.engine.entity d.stock.rows cache) :
    Coherent u (Setup.withCache d cache) :=
  ⟨hd.keyed, hd.observed, hd.steady.withCache h, hd.settled⟩

variable (hlimit : u.config.fetchTimeout = none)
include hlimit

/-- Loads at a desk are answered from the table. -/
theorem of_loads (hd : Coherent u d) {keys : List Key} {answers : List (Loaded ρ)}
    {service : Service ρ}
    (h : Service.Loads u.service d.stock.rows d.service keys answers service) :
    Coherent u { d with service } ∧ answers = keys.map fun k => .ok (d.stock.rows.get? k) := by
  obtain ⟨hanswers, hsteady, hsettled⟩ := h.answers_eq hd.keyed hlimit hd.steady hd.settled
  exact ⟨⟨hd.keyed, hd.observed, hsteady, hsettled⟩, hanswers⟩

theorem of_idles (hd : Coherent u d) (h : u.Idles d d') : Coherent u d' ∧ d'.stock = d.stock := by
  obtain ⟨hstretch⟩ := h
  have hnone : Service.Loads u.service d.stock.rows d.service [] [] _ :=
    ⟨rfl, _, hstretch, fun _ _ h => by cases h⟩
  exact ⟨(hd.of_loads hlimit hnone).1, rfl⟩

/-- Every query is answered. -/
theorem exists_answer (hd : Coherent u d) (q : Ask ρ) : ∃ r d', u.Answers d q r d' := by
  cases q with
  | load keys =>
    obtain ⟨service, hloads⟩ := hd.steady.exists_loads hd.keyed hlimit hd.settled keys
    exact ⟨_, _, .load hloads⟩
  | epoch => exact ⟨_, _, .epoch⟩
  | prime rows epoch => exact ⟨_, _, .prime rows epoch⟩
  | count | findKeys | findMany | unit | shuffle => exact ⟨_, _, .stock _ nofun nofun nofun⟩

/-- Every query is answered from the stock; only what is said of the cache is not. -/
theorem of_answers (hd : Coherent u d) {q : Ask ρ} {r : q.Answer} (known : q ≠ .epoch)
    (given : ∀ rows epoch, q ≠ .prime rows epoch) (h : u.Answers d q r d') :
    Coherent u d' ∧ u.engine.answer q d.stock = (r, d'.stock) := by
  cases h with
  | stock _ plain =>
    have hrows : (u.engine.answer q d.stock).2.rows = d.stock.rows := by
      cases q <;> rfl
    refine ⟨⟨?_, ?_, ?_, hd.settled⟩, rfl⟩
    · rw [hrows]
      exact hd.keyed
    · rw [hrows]
      exact hd.observed
    · rw [hrows]
      exact hd.steady
  | load hloads =>
    obtain ⟨hd', rfl⟩ := hd.of_loads hlimit hloads
    exact ⟨hd', rfl⟩
  | epoch => exact absurd rfl known
  | prime rows epoch => exact absurd rfl (given rows epoch)

end Coherent

/-! ## Plans -/

theorem carries_bind {p : Plan ρ α} {f : α → Plan ρ β} {b : β} :
    u.Carries (p >>= f) d b d'' ↔ ∃ a d', u.Carries p d a d' ∧ u.Carries (f a) d' b d'' := by
  constructor
  · intro h
    induction p generalizing d with
    | done a => exact ⟨a, d, .done, h⟩
    | ask q next ih =>
      cases h with | ask idle answer rest =>
      obtain ⟨a, d', hnext, hf⟩ := ih _ rest
      exact ⟨a, d', .ask idle answer hnext, hf⟩
  · rintro ⟨a, d', hp, hf⟩
    induction hp with
    | done => exact hf
    | ask idle answer _ ih => exact .ask idle answer (ih hf)

namespace Realizes

/-- What a plan comes to may be come to in another way. -/
theorem congr {p p' p'' : Plan ρ α} (hp : Realizes u p p')
    (h : ∀ d, Coherent u d → p'.run u.engine.answer d.stock = p''.run u.engine.answer d.stock) :
    Realizes u p p'' where
  returns := hp.returns
  agrees := by
    intro d a d' hd hcarries
    obtain ⟨hd', hrun⟩ := hp.agrees d a d' hd hcarries
    exact ⟨hd', (h d hd).symm.trans hrun⟩

theorem done (u : Setup ρ) (a : α) : Realizes u (.done a) (.done a) where
  returns := fun d _ => ⟨a, d, .done⟩
  agrees := by
    intro d a' d' hd h
    cases h
    exact ⟨hd, rfl⟩

theorem bind {p p' : Plan ρ α} {f f' : α → Plan ρ β} (hp : Realizes u p p')
    (hf : ∀ a, Realizes u (f a) (f' a)) : Realizes u (p >>= f) (p' >>= f') where
  returns := by
    intro d hd
    obtain ⟨a, d', hcarries⟩ := hp.returns d hd
    obtain ⟨b, d'', hrest⟩ := (hf a).returns d' (hp.agrees d a d' hd hcarries).1
    exact ⟨b, d'', carries_bind.2 ⟨a, d', hcarries, hrest⟩⟩
  agrees := by
    intro d b d'' hd h
    obtain ⟨a, d', hcarries, hrest⟩ := carries_bind.1 h
    obtain ⟨hd', hrun⟩ := hp.agrees d a d' hd hcarries
    obtain ⟨hd'', hrun'⟩ := (hf a).agrees d' b d'' hd' hrest
    refine ⟨hd'', ?_⟩
    rw [Plan.run_bind, hrun]
    exact hrun'

theorem ask (hlimit : u.config.fetchTimeout = none) {q : Ask ρ} {next next' : q.Answer → Plan ρ α}
    (known : q ≠ .epoch) (given : ∀ rows epoch, q ≠ .prime rows epoch)
    (h : ∀ r, Realizes u (next r) (next' r)) : Realizes u (.ask q next) (.ask q next') where
  returns := by
    intro d hd
    obtain ⟨r, d', hanswer⟩ := hd.exists_answer hlimit q
    obtain ⟨a, d'', hrest⟩ := (h r).returns d' (hd.of_answers hlimit known given hanswer).1
    exact ⟨a, d'', .ask (idles_self u d) hanswer hrest⟩
  agrees := by
    intro d a d₃ hd hcarries
    cases hcarries with | ask idle answer rest =>
    obtain ⟨hd₁, hstock⟩ := hd.of_idles hlimit idle
    obtain ⟨hd₂, hanswer⟩ := hd₁.of_answers hlimit known given answer
    obtain ⟨hd₃, hrun⟩ := (h _).agrees _ a d₃ hd₂ rest
    refine ⟨hd₃, ?_⟩
    rw [hstock] at hanswer
    rw [Plan.run, hanswer]
    exact hrun

/-! ## Queries -/

theorem pure (u : Setup ρ) (a : α) :
    Realizes u (Pure.pure a : Query ρ α).run (Pure.pure a : Query ρ α).run :=
  done u (Except.ok a)

theorem refuse (u : Setup ρ) (reason : Malformation) :
    Realizes u (Query.refuse reason : Query ρ α).run (Query.refuse reason : Query ρ α).run :=
  done u (Except.error (QueryError.malformed reason))

/-- One query after another; an error ends both. -/
theorem andThen {p p' : Query ρ α} {f f' : α → Query ρ β} (hp : Realizes u p.run p'.run)
    (hf : ∀ a, Realizes u (f a).run (f' a).run) : Realizes u (p >>= f).run (p' >>= f').run := by
  refine hp.bind fun x => ?_
  cases x with
  | ok a => exact hf a
  | error e => exact done u (Except.error e)

variable (hlimit : u.config.fetchTimeout = none)
include hlimit

theorem tryAsk {q : Ask ρ} (result : q.Answer → Except StoreError α) (known : q ≠ .epoch)
    (given : ∀ rows epoch, q ≠ .prime rows epoch) :
    Realizes u (Query.tryAsk q result).run (Query.tryAsk q result).run :=
  ask hlimit known given fun _ => done u _

theorem count (f : Filter) :
    Realizes u (Query.count f : Query ρ UInt64).run (Query.count f : Query ρ UInt64).run :=
  tryAsk hlimit _ nofun nofun

theorem findKeys (kind : String) (o : FindOptions) :
    Realizes u (Query.findKeys kind o : Query ρ (List Key)).run
      (Query.findKeys kind o : Query ρ (List Key)).run :=
  tryAsk hlimit _ nofun nofun

theorem loadMany (keys : List Key) :
    Realizes u (Query.loadMany keys : Query ρ (List ρ)).run
      (Query.loadMany keys : Query ρ (List ρ)).run :=
  tryAsk hlimit _ nofun nofun

theorem unit :
    Realizes u (Query.ask (.unit : Ask ρ)).run (Query.ask (.unit : Ask ρ)).run :=
  ask hlimit nofun nofun fun _ => done u _

theorem shuffle (keys : List Key) :
    Realizes u (Query.ask (.shuffle keys : Ask ρ)).run (Query.ask (.shuffle keys : Ask ρ)).run :=
  ask hlimit nofun nofun fun _ => done u _

end Realizes

end ReadThrough.Desk
