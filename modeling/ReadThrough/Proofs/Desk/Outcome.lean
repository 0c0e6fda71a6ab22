import ReadThrough.Proofs.Desk.Page
/-!
# What a query may come to

What a query comes to depends on more than the tables: on what rows a cache has, and on chance. `Comes`
leaves all that open. A query `Succeeds` if it comes to no error in any way, and every query does that asks
the tables for declared columns and relations only.
-/

namespace ReadThrough.Engine

variable {ρ α β : Type}

/-- What may be answered to a query. What the tables are asked is answered from them. A load may bring any
rows, but it does not fail; what is left to chance or to the cache may be anything. -/
def MayAnswer (g : Engine ρ) (s : Stock ρ) : (q : Ask ρ) → q.Answer → Prop
  | .count f, r => r = (g.answer (.count f) s).1
  | .findKeys kind o, r => r = (g.answer (.findKeys kind o) s).1
  | .findMany o, r => r = (g.answer (.findMany o) s).1
  | .load _, r => ∃ rows : List (Option ρ), r = rows.map .ok
  | .unit, _ | .shuffle _, _ | .epoch, _ | .prime _ _, _ => True

/-- A plan may come to a result. -/
inductive Comes (g : Engine ρ) (s : Stock ρ) : Plan ρ α → α → Prop where
  | done {a : α} : Comes g s (.done a) a
  | ask {q : Ask ρ} {next : q.Answer → Plan ρ α} {r : q.Answer} {a : α}
      (answer : g.MayAnswer s q r) (rest : Comes g s (next r) a) : Comes g s (.ask q next) a

variable {g : Engine ρ} {s s' : Stock ρ}

theorem comes_bind {p : Plan ρ α} {f : α → Plan ρ β} {b : β} :
    g.Comes s (p >>= f) b ↔ ∃ a, g.Comes s p a ∧ g.Comes s (f a) b := by
  constructor
  · intro h
    induction p with
    | done a => exact ⟨a, .done, h⟩
    | ask q next ih =>
      cases h with | ask answer rest =>
      obtain ⟨a, hnext, hf⟩ := ih _ rest
      exact ⟨a, .ask answer hnext, hf⟩
  · rintro ⟨a, hp, hf⟩
    induction hp with
    | done => exact hf
    | ask answer _ ih => exact .ask answer (ih hf)

/-- Chance does not matter to the tables. -/
theorem mayAnswer_congr (hrows : s'.rows = s.rows) (hcategories : s'.categories = s.categories) (q : Ask ρ)
    (r : q.Answer) : g.MayAnswer s' q r ↔ g.MayAnswer s q r := by
  cases q <;> simp only [MayAnswer, answer, table?, hrows, hcategories]

theorem mayAnswer_answer (g : Engine ρ) (s : Stock ρ) (q : Ask ρ) : g.MayAnswer s q (g.answer q s).1 := by
  cases q with
  | load keys => exact ⟨keys.map s.rows.get?, (List.map_map).symm⟩
  | count | findKeys | findMany => exact rfl
  | unit | shuffle | epoch | prime => trivial

/-- What a plan comes to on the stock alone is among what it may come to. -/
theorem comes_run (g : Engine ρ) {s s' : Stock ρ} (hrows : s'.rows = s.rows)
    (hcategories : s'.categories = s.categories) (p : Plan ρ α) : g.Comes s p (p.run g.answer s').1 := by
  induction p generalizing s' with
  | done a => exact .done
  | ask q next ih =>
    have hkeeps : (g.answer q s').2.rows = s'.rows ∧ (g.answer q s').2.categories = s'.categories := by
      cases q <;> exact ⟨rfl, rfl⟩
    have hanswer := (mayAnswer_congr hrows hcategories q _).1 (mayAnswer_answer g s' q)
    exact .ask hanswer (ih _ (hkeeps.1.trans hrows) (hkeeps.2.trans hcategories))

/-! ## Queries without errors -/

/-- A query comes to no error. -/
def Succeeds (g : Engine ρ) (s : Stock ρ) (p : Query ρ α) : Prop :=
  ∀ x, g.Comes s p.run x → ∃ a, x = .ok a

namespace Succeeds

theorem pure (g : Engine ρ) (s : Stock ρ) (a : α) : g.Succeeds s (Pure.pure a) := by
  intro x h
  cases h
  exact ⟨a, rfl⟩

theorem andThen {p : Query ρ α} {f : α → Query ρ β} (hp : g.Succeeds s p)
    (hf : ∀ a, g.Succeeds s (f a)) : g.Succeeds s (p >>= f) := by
  intro x h
  obtain ⟨y, hy, hx⟩ := comes_bind.1 h
  obtain ⟨a, rfl⟩ := hp y hy
  exact hf a x hx

theorem tryAsk {q : Ask ρ} {result : q.Answer → Except StoreError α}
    (h : ∀ r, g.MayAnswer s q r → ∃ a, result r = .ok a) : g.Succeeds s (Query.tryAsk q result) := by
  intro x hx
  cases hx with | @ask _ _ r _ answer rest =>
  obtain ⟨a, ha⟩ := h r answer
  replace rest : g.Comes s (.done ((result r).mapError .store)) x := rest
  rw [ha] at rest
  cases rest
  exact ⟨a, rfl⟩

theorem ask (g : Engine ρ) (s : Stock ρ) (q : Ask ρ) : g.Succeeds s (Query.ask q) := by
  intro x hx
  cases hx with | ask answer rest =>
  cases rest
  exact ⟨_, rfl⟩

theorem loadMany (g : Engine ρ) (s : Stock ρ) (keys : List Key) :
    g.Succeeds s (Query.loadMany keys : Query ρ (List ρ)) := by
  refine tryAsk ?_
  rintro r ⟨rows, rfl⟩
  exact ⟨_, Query.collect_ok rows⟩

theorem count {f : Filter} (h : ∀ c ∈ f, g.entity.hasColumn c.column = true) :
    g.Succeeds s (Query.count f : Query ρ UInt64) := by
  refine tryAsk ?_
  rintro r rfl
  exact s.rows.count_of_declared h

theorem findKeys {o : FindOptions} (h : o.Declared g.entity) :
    g.Succeeds s (Query.findKeys g.entity.kind o : Query ρ (List Key)) := by
  refine tryAsk ?_
  rintro r rfl
  show ∃ keys, (g.table? s g.entity.kind).elim _ _ = _
  rw [table?, if_pos rfl]
  exact s.rows.findKeys_of_declared h

theorem fetchWindow {o : FindOptions} (h : o.Declared g.entity) (fields : Selection) :
    g.Succeeds s (g.fetchWindow o fields) := by
  unfold Engine.fetchWindow
  split
  · refine andThen (ask g s .epoch) fun epoch => ?_
    refine andThen (tryAsk ?_) fun rows => ?_
    · rintro r rfl
      exact s.rows.findMany_of_declared h
    · exact andThen (ask g s (.prime rows epoch)) fun _ => pure g s rows
  · exact andThen (findKeys h) fun keys => loadMany g s keys

theorem cursorStart (g : Engine ρ) (s : Stock ρ) (after : Option String) :
    g.Succeeds s (Engine.cursorStart after : Query ρ (Option Key)) := by
  unfold Engine.cursorStart
  split
  · exact pure g s none
  · split
    · exact pure g s none
    · exact andThen (loadMany g s _) fun found => pure g s _

section

variable {f : Filter} (hf : ∀ c ∈ f, g.entity.hasColumn c.column = true)
include hf

theorem sample (n : UInt32) : g.Succeeds s (g.sample f n) := by
  refine andThen (count hf) fun total => ?_
  refine andThen (ask g s .unit) fun r => ?_
  refine andThen (findKeys ⟨hf, ?_, nofun⟩) fun keys => ?_
  · intro x hx
    rw [List.mem_singleton.1 hx]
    exact g.entity.hasColumn_keyColumn
  · refine andThen (ask g s (.shuffle keys)) fun keys => ?_
    exact andThen (loadMany g s _) fun items => pure g s _

variable {fields : Selection} (hfields : ∀ name ∈ fields.relations, g.entity.hasRelation name = true)
include hfields

theorem cursorPage (after : Option String) (first : Option UInt32) :
    g.Succeeds s (g.cursorPage f fields after first) := by
  refine andThen (count hf) fun total => ?_
  refine andThen (cursorStart g s after) fun start => ?_
  refine andThen (fetchWindow ⟨?_, ?_, hfields⟩ fields) fun items => pure g s _
  · intro c hc
    rcases List.mem_append.1 hc with hc | hc
    · exact hf c hc
    · obtain ⟨k, -, rfl⟩ := List.mem_map.1 hc
      exact g.entity.hasColumn_keyColumn
  · intro x hx
    rw [List.mem_singleton.1 hx]
    exact g.entity.hasColumn_keyColumn

/-- A page by number is delivered, if there is a page of the number and a column to order it by. -/
theorem offsetPage {orderBy : Option Order} (horder : ∀ o ∈ orderBy, g.entity.hasColumn o.column = true)
    {page : UInt32} (hpage : page ≠ 0) (size : Option UInt32) :
    g.Succeeds s (g.offsetPage f orderBy fields page size) := by
  have hnatural := g.entity.hasColumn_keyColumn
  have hwindow : ∃ w, g.limits.window page size = .ok w := by
    rw [Limits.window, if_neg hpage]
    exact ⟨_, rfl⟩
  obtain ⟨w, hw⟩ := hwindow
  have hpageOrder : ∃ order, g.pageOrder orderBy = Pure.pure order ∧
      ∀ x ∈ order, g.entity.hasColumn x.column = true := by
    unfold pageOrder
    cases orderBy with
    | none => exact ⟨[g.entity.natural], rfl, by simpa [Entity.natural] using hnatural⟩
    | some o =>
      have ho := horder o rfl
      simp only [ho, Bool.not_true, Bool.false_eq_true, if_false]
      split
      · exact ⟨[o], rfl, by simpa using ho⟩
      · exact ⟨[o, g.entity.natural], rfl, by simpa [Entity.natural] using ⟨ho, hnatural⟩⟩
  obtain ⟨order, heq, hdeclared⟩ := hpageOrder
  rw [Engine.offsetPage, hw]
  show g.Succeeds s (g.pageOrder orderBy >>= fun order => _)
  rw [heq]
  have hpage : g.Succeeds s (g.fetchWindow
      { filter := f, order, skip := w.skip, take := some w.take, relations := fields.relations
        select := fields.select g.entity } fields >>= fun items => Pure.pure ({ items } : Resolution ρ)) :=
    andThen (fetchWindow ⟨hf, hdeclared, hfields⟩ fields) fun items => pure g s _
  exact hpage

end

end Succeeds

end ReadThrough.Engine
