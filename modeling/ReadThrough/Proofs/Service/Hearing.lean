import ReadThrough.Proofs.Service.Batching
/-!
# Who hears of an answer

What the store says to a batch, those hear who have joined the batch, and nobody else hears of it: each of
them once, when the batch answers, and nothing but what the answer says of their key
(`Run.Hears.informs`).
-/

namespace ReadThrough.Service.Run

variable {ρ : Type} {u : Setup ρ} (R : Run u)

/-- Who is told what after the store has been heard at a step: those who wait in the batch are told what
is owed to their key. -/
structure Informs (q : Nat) (b : Batch Nat) (owed : Key → Loaded ρ → Prop) : Prop where
  /-- The store was asked for the keys of the batch, each once, and it is heard once. -/
  asked : ∃ t < q, R.event t = .ask b.generation
  settled : ∀ q' answer, R.event q' = .settle b.generation answer → q' = q
  /-- Those who wait are the loads that ever join the batch. -/
  waiters : ∀ l k, (k, l) ∈ b.waiting ↔ ∃ j, R.Joins j l k b.generation
  /-- The batch answers after that, once, and each of those who wait is told what is said of its key, unless
  its caller has gone away. Nobody else is told anything then. -/
  told : ∀ r, R.event r = .reply b.generation → q < r ∧ ∀ l x, R.Answers r l x ↔
    l ∉ (R.state r).dropped ∧ ∃ k, (k, l) ∈ b.waiting ∧ owed k x
  once : ∀ r, R.event r = .reply b.generation →
    ((u.answers (R.state r) (R.event r)).map Prod.fst).Nodup
  replied : ∀ r r', R.event r = .reply b.generation → R.event r' = .reply b.generation → r = r'
  /-- They are told nothing before or afterwards. -/
  only : ∀ l k r x, (k, l) ∈ b.waiting → R.Answers r l x → R.event r = .reply b.generation
  /-- The batch answers, unless somebody waits for ever. -/
  served : R.Fair → ∃ r, R.event r = .reply b.generation

variable {R}

/-- A batch is heard of once. -/
theorem Hears.unique {q q' : Nat} {b b' : Batch Nat} {answer answer' : Except StoreError (List ρ)}
    (h : R.Hears q b answer) (h' : R.Hears q' b' answer') (hg : b.generation = b'.generation) :
    q = q' ∧ b = b' ∧ answer = answer' := by
  obtain ⟨he, epoch, hf⟩ := h
  obtain ⟨he', epoch', hf'⟩ := h'
  rw [← hg] at he' hf'
  obtain rfl := settle_unique he he'
  obtain ⟨-, rfl⟩ := Event.settle.inj (he.symm.trans he')
  rw [hf] at hf'
  cases hf'
  exact ⟨rfl, rfl, rfl⟩

theorem Hears.mem_waiting {q : Nat} {b : Batch Nat} {answer : Except StoreError (List ρ)}
    (h : R.Hears q b answer) {l : Nat} {k : Key} :
    (k, l) ∈ b.waiting ↔ ∃ j, R.Joins j l k b.generation := by
  obtain ⟨epoch, hf⟩ := h.2
  rw [waiting_eq (Loader.batch?_of_flight? (R.numbered q) hf), mem_joined]
  constructor
  · rintro ⟨j, -, hjoins⟩
    exact ⟨j, hjoins⟩
  · rintro ⟨j, hjoins⟩
    obtain ⟨t, htq, hask⟩ := h.asked
    exact ⟨j, Nat.lt_trans (hjoins.lt_ask hask) htq, hjoins⟩

/-- Those who wait for a batch are told what the store has said to it, and nobody else is. -/
theorem Hears.told {q r : Nat} {b : Batch Nat} {answer : Except StoreError (List ρ)}
    (h : R.Hears q b answer) (hr : R.event r = .reply b.generation) :
    q < r ∧ (((R.state r).loader.reply b.generation).1.map Prod.fst).Nodup ∧ ∀ l x, R.Answers r l x ↔
      l ∉ (R.state r).dropped ∧ ∃ k, (k, l) ∈ b.waiting ∧ x = Flight.result u.entity.key answer k := by
  obtain ⟨q', b', answer', hqr, hg, hhears, hbatch, htold, hnodup⟩ := R.reply_source hr
  obtain ⟨rfl, rfl, rfl⟩ := h.unique hhears hg.symm
  refine ⟨hqr, hnodup ?_, fun l x => ?_⟩
  · rw [waiting_eq hbatch]
    exact nodup_joined _ r
  · show (l, x) ∈ u.answers (R.state r) (R.event r) ↔ _
    rw [hr, Setup.answers, List.mem_filter, htold, decide_eq_true_eq, and_comm]

/-- Who waits in a batch is told something only when the batch answers. -/
theorem Joins.answered_by {j l r g : Nat} {k : Key} {x : Loaded ρ} (h : R.Joins j l k g)
    (hr : R.Answers r l x) : R.event r = .reply g := by
  obtain ⟨b, -, hbegins, hmiss⟩ := R.began_of_missed h.missed
  obtain ⟨j', g', hjoins, hreply⟩ := answers_of_miss hbegins hmiss hr
  obtain ⟨-, -, rfl⟩ := h.unique hjoins
  exact hreply

/-- What is said to a batch reaches those who have joined it, and nobody else. -/
theorem Hears.informs {q : Nat} {b : Batch Nat} {answer : Except StoreError (List ρ)}
    (h : R.Hears q b answer) {owed : Key → Loaded ρ → Prop}
    (howed : ∀ k x, owed k x ↔ x = Flight.result u.entity.key answer k) : R.Informs q b owed where
  asked := h.asked
  settled := fun q' answer' he => settle_unique he h.1
  waiters := fun l k => h.mem_waiting
  told := by
    intro r hr
    obtain ⟨hqr, -, htold⟩ := h.told hr
    refine ⟨hqr, fun l x => ?_⟩
    simp only [htold, howed]
  once := by
    intro r hr
    obtain ⟨-, hnodup, -⟩ := h.told hr
    rw [hr]
    exact hnodup.sublist (List.filter_sublist.map Prod.fst)
  replied := fun r r' hr hr' => reply_unique hr hr'
  only := by
    intro l k r x hw hr
    obtain ⟨j, hjoins⟩ := h.mem_waiting.1 hw
    exact hjoins.answered_by hr
  served := by
    intro hF
    obtain ⟨epoch, hf⟩ := h.2
    obtain ⟨r, -, hr⟩ := hF.replies_of_batch (Loader.batch?_of_flight? (R.numbered q) hf)
    exact ⟨r, hr⟩

end ReadThrough.Service.Run
