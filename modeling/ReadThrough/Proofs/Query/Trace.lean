import ReadThrough.Query.Engine
/-!
# What a query asks

A plan `Runs` if it is answered in one way or another; a law says which answers are possible. The log of a run
is what has been asked and answered. Whether a query keeps to asking certain things, and what is known of its
result, is found out step by step (`Query.Keeps.andThen`): what follows is only asked when what went before has
brought a result, and all that is known of that result may be used.
-/

namespace ReadThrough

variable {ρ α β : Type}

/-- Something that has been asked, and what has been answered. -/
structure Exchange (ρ : Type) where
  ask : Ask ρ
  answer : ask.Answer

/-- Which answers are possible. -/
abbrev Law (ρ : Type) := (q : Ask ρ) → q.Answer → Prop

namespace Plan

variable {law law' : Law ρ}

/-- A plan is carried out, with possible answers, and comes to a result. -/
inductive Runs (law : Law ρ) : Plan ρ α → List (Exchange ρ) → α → Prop where
  | done {a : α} : Runs law (.done a) [] a
  | ask {q : Ask ρ} {next : q.Answer → Plan ρ α} {r : q.Answer} {log : List (Exchange ρ)} {a : α}
      (possible : law q r) (rest : Runs law (next r) log a) : Runs law (.ask q next) (⟨q, r⟩ :: log) a

theorem Runs.possible {p : Plan ρ α} {log : List (Exchange ρ)} {a : α} (h : p.Runs law log a) :
    ∀ x ∈ log, law x.ask x.answer := by
  induction h with
  | done => exact nofun
  | ask possible _ ih => exact List.forall_mem_cons.2 ⟨possible, ih⟩

/-- A run is possible under any law that allows its answers. -/
theorem Runs.under {p : Plan ρ α} {log : List (Exchange ρ)} {a : α} (h : p.Runs law log a)
    (hlog : ∀ x ∈ log, law' x.ask x.answer) : p.Runs law' log a := by
  induction h with
  | done => exact .done
  | ask _ _ ih =>
    obtain ⟨hfirst, hrest⟩ := List.forall_mem_cons.1 hlog
    exact .ask hfirst (ih hrest)

/-- A run of one plan after another is a run of the one, and then a run of the other. -/
theorem runs_bind {p : Plan ρ α} {f : α → Plan ρ β} {log : List (Exchange ρ)} {b : β}
    (h : (p >>= f).Runs law log b) :
    ∃ a before after, log = before ++ after ∧ p.Runs law before a ∧ (f a).Runs law after b := by
  induction p generalizing log with
  | done a => exact ⟨a, [], log, rfl, .done, h⟩
  | ask q next ih =>
    cases h with | ask possible rest =>
    obtain ⟨a, before, after, rfl, hp, hf⟩ := ih _ rest
    exact ⟨a, _ :: before, after, rfl, .ask possible hp, hf⟩

end Plan

namespace Query

variable {law : Law ρ} {log : List (Exchange ρ)}

/-- A run of one query after another ends with the error of the first, or goes on with its result. -/
theorem runs_andThen {p : Query ρ α} {f : α → Query ρ β} {x : Except QueryError β}
    (h : (p >>= f).run.Runs law log x) :
    (∃ e, p.run.Runs law log (.error e) ∧ x = .error e) ∨
      ∃ a before after, log = before ++ after ∧ p.run.Runs law before (.ok a) ∧
        (f a).run.Runs law after x := by
  replace h : (p.run >>= ExceptT.bindCont f).Runs law log x := h
  obtain ⟨y, before, after, rfl, hp, hf⟩ := Plan.runs_bind h
  cases y with
  | ok a => exact .inr ⟨a, before, after, rfl, hp, hf⟩
  | error e =>
    cases hf
    rw [List.append_nil]
    exact .inl ⟨e, hp, rfl⟩

/-- In every run, a query asks nothing but what is allowed, and its result is as it should be. -/
def Keeps (law : Law ρ) (P : Ask ρ → Prop) (Q : α → Prop) (p : Query ρ α) : Prop :=
  ∀ log x, p.run.Runs law log x → (∀ e ∈ log, P e.ask) ∧ ∀ a, x = .ok a → Q a

namespace Keeps

variable {P : Ask ρ → Prop} {Q : α → Prop} {Q' : β → Prop}

theorem pure {a : α} (h : Q a) : Keeps law P Q (Pure.pure a) := by
  intro log x hruns
  cases hruns
  refine ⟨nofun, ?_⟩
  rintro _ ⟨⟩
  exact h

theorem refuse (law : Law ρ) (P : Ask ρ → Prop) (Q : α → Prop) (reason : Malformation) :
    Keeps law P Q (Query.refuse reason) := by
  intro log x hruns
  cases hruns
  exact ⟨nofun, nofun⟩

theorem mono {Q' : α → Prop} {p : Query ρ α} (hp : Keeps law P Q p) (hQ : ∀ a, Q a → Q' a) :
    Keeps law P Q' p := by
  intro log x hruns
  obtain ⟨hasked, hresult⟩ := hp log x hruns
  exact ⟨hasked, fun a ha => hQ a (hresult a ha)⟩

/-- What is known of the result of one query may be used for the next. -/
theorem andThen {p : Query ρ α} {f : α → Query ρ β} (hp : Keeps law P Q p)
    (hf : ∀ a, Q a → Keeps law P Q' (f a)) : Keeps law P Q' (p >>= f) := by
  intro log x hruns
  rcases runs_andThen hruns with ⟨e, hfirst, rfl⟩ | ⟨a, before, after, rfl, hfirst, hrest⟩
  · exact ⟨(hp _ _ hfirst).1, nofun⟩
  · obtain ⟨hasked, hresult⟩ := hp _ _ hfirst
    obtain ⟨hasked', hresult'⟩ := hf a (hresult a rfl) _ _ hrest
    exact ⟨fun e he => (List.mem_append.1 he).elim (hasked e) (hasked' e), hresult'⟩

theorem ask {q : Ask ρ} {Q : q.Answer → Prop} (hq : P q) (hQ : ∀ r, law q r → Q r) :
    Keeps law P Q (Query.ask q) := by
  intro log x hruns
  cases hruns with | ask possible rest =>
  cases rest
  refine ⟨List.forall_mem_singleton.2 hq, ?_⟩
  rintro _ ⟨⟩
  exact hQ _ possible

theorem tryAsk {q : Ask ρ} {result : q.Answer → Except StoreError α} (hq : P q)
    (hQ : ∀ r a, law q r → result r = .ok a → Q a) : Keeps law P Q (Query.tryAsk q result) := by
  intro log x hruns
  cases hruns with | @ask _ _ r _ _ possible rest =>
  cases rest
  refine ⟨List.forall_mem_singleton.2 hq, fun a ha => ?_⟩
  cases hr : result r with
  | ok b =>
    rw [hr] at ha
    cases ha
    exact hQ r _ possible hr
  | error e =>
    rw [hr] at ha
    cases ha

end Keeps

end Query

end ReadThrough
