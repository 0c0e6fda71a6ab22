import ReadThrough.Proofs.Service.Batches
import ReadThrough.Proofs.Service.Sources
/-!
# Who joins which batch

A run of a service says which loads have joined which batch (`Run.joined`), and those are the loads that
the batch knows of (`Run.waiting_eq`). A load joins one batch, once (`Joins.unique`), waits until the
batch answers (`Joins.waits`), and is then told once (`Joins.told`). No step of the life of a batch is
taken twice, and the delay that may close a batch is its own (`Run.fired_late`, `Run.loader_of_stale`).
-/

namespace ReadThrough.Service.Run

variable {ρ : Type} {u : Setup ρ} (R : Run u)

theorem sound (n : Nat) : Sound u (R.state n) :=
  R.always (p := Sound u) (sound_fresh u) (fun _ _ _ h hs => hs.step h) n

theorem left_mono {n m : Nat} (h : n ≤ m) (g : Nat) : u.left (R.state m) g ≤ u.left (R.state n) g := by
  induction h with
  | refl => exact Nat.le_refl _
  | step _ ih => exact Nat.le_trans ((R.sound _).left_step (R.next _) g) ih

theorem generation_mono {n m : Nat} (h : n ≤ m) :
    (R.state n).loader.generation ≤ (R.state m).loader.generation :=
  R.mono (f := fun s => s.loader.generation) (fun _ _ _ => generation_step) h

/-! ## Who joins which batch -/

/-- A load joins a batch at a step. -/
structure Joins (j l : Nat) (k : Key) (g : Nat) : Prop where
  event : R.event j = .join l
  missed : (R.state j).missed.find? l = some k
  batch : (R.state j).loader.current.generation = g

/-- The loads that have joined a batch before a step, with their keys, in the order of their arrival. -/
def joined (g : Nat) : Nat → List (Key × Nat)
  | 0 => []
  | n + 1 => joined g n ++
    match R.event n with
    | .join l =>
      if (R.state n).loader.current.generation = g then
        ((R.state n).missed.find? l).toList.map fun k => (k, l)
      else []
    | _ => []

variable {R}

theorem Joins.joined_succ {n l g : Nat} {k : Key} (h : R.Joins n l k g) :
    R.joined g (n + 1) = R.joined g n ++ [(k, l)] := by
  rw [joined, h.event]
  simp [h.missed, h.batch]

theorem joined_succ_of_not {n g : Nat}
    (h : ∀ l, R.event n = .join l → (R.state n).loader.current.generation ≠ g) :
    R.joined g (n + 1) = R.joined g n := by
  rw [joined]
  split
  · rename_i l he
    rw [if_neg (h l he), List.append_nil]
  · exact List.append_nil _

/-- At every step a batch is joined by one load or by none. -/
theorem joins_or_not (n g : Nat) :
    (∃ l k, R.Joins n l k g) ∨
      ∀ l, R.event n = .join l → (R.state n).loader.current.generation ≠ g := by
  by_cases h : ∃ l, R.event n = .join l ∧ (R.state n).loader.current.generation = g
  · obtain ⟨l, he, hg⟩ := h
    obtain ⟨k, hk⟩ := missed_of_join (he ▸ R.next n)
    exact .inl ⟨l, k, he, hk, hg⟩
  · exact .inr fun l he hg => h ⟨l, he, hg⟩

theorem mem_joined {n g l : Nat} {k : Key} :
    (k, l) ∈ R.joined g n ↔ ∃ j < n, R.Joins j l k g := by
  induction n with
  | zero =>
    constructor
    · exact nofun
    · rintro ⟨j, hj, -⟩
      cases hj
  | succ n ih =>
    have hlast : (∃ j < n + 1, R.Joins j l k g) ↔ (∃ j < n, R.Joins j l k g) ∨ R.Joins n l k g := by
      constructor
      · rintro ⟨j, hj, h⟩
        rcases Nat.lt_or_eq_of_le (Nat.le_of_lt_succ hj) with hlt | rfl
        · exact .inl ⟨j, hlt, h⟩
        · exact .inr h
      · rintro (⟨j, hj, h⟩ | h)
        · exact ⟨j, Nat.lt_succ_of_lt hj, h⟩
        · exact ⟨n, Nat.lt_succ_self n, h⟩
    rw [hlast, ← ih]
    rcases joins_or_not n g with ⟨l', k', h⟩ | h
    · rw [h.joined_succ, List.mem_append, List.mem_singleton]
      refine or_congr_right ⟨fun e => ?_, fun h' => ?_⟩
      · cases e
        exact h
      · have hl := Event.join.inj (h'.event.symm.trans h.event)
        subst hl
        rw [Option.some.inj (h'.missed.symm.trans h.missed)]
    · rw [joined_succ_of_not h]
      exact ⟨.inl, fun h' => h'.elim id fun h' => absurd h'.batch (h l h'.event)⟩

/-- Nobody has joined a batch whose number has not been given. -/
theorem joined_of_generation_le {n g : Nat} (h : (R.state n).loader.generation ≤ g) :
    R.joined g n = [] := by
  induction n with
  | zero => rfl
  | succ n ih =>
    have hle := generation_step (R.next n)
    rw [joined_succ_of_not, ih (Nat.le_trans hle h)]
    intro l he hg
    have hmoves := step_moves (R.next n)
    rw [he] at hmoves
    generalize R.state (n + 1) = s' at hmoves h
    cases hmoves with | @join _ k hk =>
    have hlt := (R.numbered n).current_lt u.config.threshold k l
    have hjoin : ((R.state n).loader.join u.config.threshold k l).2.generation ≤ g := h
    omega

/-- A batch knows of the loads that have joined it and of no others. -/
theorem waiting_eq {n g : Nat} {b : Batch Nat} (h : (R.state n).loader.batch? g = some b) :
    b.waiting = R.joined g n := by
  induction n generalizing b with
  | zero =>
    rw [R.start] at h
    cases h
  | succ n ih =>
    rcases batch_step (R.numbered n) (R.next n) g with
      ⟨l, k, he, hk, hg, hnew⟩ | ⟨-, -, hgone⟩ | ⟨hno, -, hsame⟩
    · rw [hnew] at h
      cases h
      rw [(Joins.mk he hk hg : R.Joins n l k g).joined_succ, Batch.waiting_push]
      congr 1
      cases hp : (R.state n).loader.pending with
      -- Nobody has joined a batch before it is opened.
      | none =>
        rw [Loader.generation_current_of_none hp] at hg
        rw [joined_of_generation_le (Nat.le_of_eq hg), Loader.current, hp]
        rfl
      | some b =>
        rw [Loader.current_of_pending hp] at hg ⊢
        exact ih (hg ▸ Loader.batch?_of_pending hp)
    · rw [hgone] at h
      cases h
    · rw [joined_succ_of_not hno]
      exact ih (hsame ▸ h)

/-! ## Once -/

/-- A load that is not missing any more is never missing again. -/
theorem missed_gone {n m l : Nat} (hl : l < (R.state n).loads)
    (h : (R.state n).missed.find? l = none) (hnm : n ≤ m) : (R.state m).missed.find? l = none := by
  induction hnm with
  | refl => exact h
  | @step m hnm ih =>
    rcases missed_step (R.next m) l with ⟨k, -, hl', -⟩ | ⟨-, hgone⟩ | ⟨-, hsame⟩
    · have := R.loads_mono hnm
      omega
    · exact hgone
    · rw [hsame, ih]

theorem Joins.not_later {j j' l g g' : Nat} {k k' : Key} (h : R.Joins j l k g)
    (h' : R.Joins j' l k' g') : ¬ j < j' := by
  intro hlt
  obtain ⟨b, hb, hbegin, -⟩ := R.began_of_missed h.missed
  have hl := hbegin.lt_loads (Nat.lt_succ_of_lt hb)
  -- The load is missing no more when it has joined, and will never be missing again.
  have hgone : (R.state (j + 1)).missed.find? l = none := by
    rcases missed_step (R.next j) l with ⟨k, he, -⟩ | ⟨-, hgone⟩ | ⟨hne, -⟩
    · rw [h.event] at he
      cases he
    · exact hgone
    · exact absurd h.event hne
  have hnone := missed_gone hl hgone hlt
  rw [h'.missed] at hnone
  cases hnone

/-- A load joins one batch at most, and once. -/
theorem Joins.unique {j j' l g g' : Nat} {k k' : Key} (h : R.Joins j l k g)
    (h' : R.Joins j' l k' g') : j = j' ∧ k = k' ∧ g = g' := by
  have hj : j = j' := by
    have := h.not_later h'
    have := h'.not_later h
    omega
  subst hj
  exact ⟨rfl, Option.some.inj (h.missed.symm.trans h'.missed), h.batch.symm.trans h'.batch⟩

theorem nodup_joined (g n : Nat) : ((R.joined g n).map Prod.snd).Nodup := by
  induction n with
  | zero => exact List.nodup_nil
  | succ n ih =>
    rcases joins_or_not n g with ⟨l, k, h⟩ | h
    · rw [h.joined_succ, List.map_append, List.nodup_append]
      refine ⟨ih, List.nodup_singleton _, fun a ha b hb => ?_⟩
      rintro rfl
      obtain ⟨⟨k', l'⟩, hm, rfl⟩ := List.mem_map.1 ha
      obtain rfl : l' = l := List.mem_singleton.1 hb
      obtain ⟨j, hj, h'⟩ := mem_joined.1 hm
      have := (h'.unique h).1
      omega
    · rw [joined_succ_of_not h]
      exact ih

/-- A step that leaves a batch with less before it is taken once. -/
theorem eq_of_left {n m g : Nat} (hn : u.left (R.state (n + 1)) g < u.left (R.state n) g)
    (hm : u.left (R.state (m + 1)) g < u.left (R.state m) g)
    (heq : u.left (R.state n) g = u.left (R.state m) g) : n = m := by
  rcases Nat.lt_trichotomy n m with hlt | rfl | hlt
  · have := R.left_mono (show n + 1 ≤ m from hlt) g
    omega
  · rfl
  · have := R.left_mono (show m + 1 ≤ n from hlt) g
    omega

theorem left_advances {n g : Nat} (h : (R.event n).flight? = some g) :
    u.left (R.state (n + 1)) g < u.left (R.state n) g := by
  obtain ⟨f, f', hf, hadv, hf'⟩ := advance_step (R.next n) h
  exact (R.sound n).left_of_advances (R.sound (n + 1)) hf hf' hadv

theorem left_ask {t g : Nat} (h : R.event t = .ask g) :
    u.left (R.state t) g = u.config.threshold + 3 := by
  obtain ⟨b, hf⟩ := flight_of_ask (h ▸ R.next t)
  rw [left_of_flight hf, Setup.leftAt]

theorem ask_unique {t t' g : Nat} (h : R.event t = .ask g) (h' : R.event t' = .ask g) : t = t' :=
  eq_of_left (left_advances (by rw [h]; rfl)) (left_advances (by rw [h']; rfl))
    ((left_ask h).trans (left_ask h').symm)

theorem left_settle {q g : Nat} {answer : Except StoreError (List ρ)}
    (h : R.event q = .settle g answer) : u.left (R.state q) g = u.config.threshold + 2 := by
  obtain ⟨b, epoch, hf⟩ := flight_of_settle (h ▸ R.next q)
  rw [left_of_flight hf, Setup.leftAt]

theorem settle_unique {q q' g : Nat} {answer answer' : Except StoreError (List ρ)}
    (h : R.event q = .settle g answer) (h' : R.event q' = .settle g answer') : q = q' :=
  eq_of_left (left_advances (by rw [h]; rfl)) (left_advances (by rw [h']; rfl))
    ((left_settle h).trans (left_settle h').symm)

/-- A batch that answers is gone. -/
theorem left_reply {r g : Nat} (h : R.event r = .reply g) :
    u.left (R.state r) g = 1 ∧ u.left (R.state (r + 1)) g = 0 := by
  have hstep := R.next r
  rw [h] at hstep
  obtain ⟨⟨b, stage⟩, hf, hended⟩ := flight_of_reply hstep
  constructor
  · rw [left_of_flight hf]
    cases stage with
    | closed | asked => cases hended
    | answered epoch values unwritten =>
      cases unwritten with
      | nil => rfl
      | cons => cases hended
    | failed => rfl
  · exact (R.sound r).left_of_reply hstep

theorem reply_unique {r r' g : Nat} (h : R.event r = .reply g) (h' : R.event r' = .reply g) :
    r = r' := by
  have hr := left_reply h
  have hr' := left_reply h'
  refine eq_of_left (R := R) (g := g) ?_ ?_ ?_ <;> omega

/-- A batch is closed once, and has been opened by then. -/
theorem left_closes {n : Nat} {b : Batch Nat} (h : Closes u (R.state n) (R.event n) b) :
    u.left (R.state (n + 1)) b.generation = u.config.threshold + 3 ∧
      u.config.threshold + 4 ≤ u.left (R.state n) b.generation := by
  obtain ⟨-, hf⟩ := flight_of_closes (R.numbered n) (R.next n) h
  refine ⟨?_, (R.sound n).left_closes h⟩
  rw [left_of_flight hf, Setup.leftAt]

/-- A batch that a load joins has not been closed yet. -/
theorem Joins.le_left {j l g : Nat} {k : Key} (h : R.Joins j l k g) :
    u.config.threshold + 4 ≤ u.left (R.state j) g := by
  have hs := R.sound j
  rw [← h.batch]
  cases hp : (R.state j).loader.pending with
  | none =>
    rw [Loader.generation_current_of_none hp, left_of_generation_le hs (Nat.le_refl _)]
    omega
  | some b => rw [Loader.current_of_pending hp, left_of_pending hs hp]

/-- Nobody joins a batch when the store has been asked for its keys. -/
theorem Joins.lt_ask {j l g t : Nat} {k : Key} (h : R.Joins j l k g) (ht : R.event t = .ask g) :
    j < t := by
  by_contra hle
  have hmono := R.left_mono (Nat.le_of_not_lt hle) g
  have hopen := h.le_left
  have hasked := left_ask ht
  omega

/-! ## Waiting and being told -/

/-- A load that has joined a batch waits for it until the batch answers. -/
theorem Joins.waits {j l g n : Nat} {k : Key} (h : R.Joins j l k g) (hn : j < n)
    (hno : ∀ r < n, R.event r ≠ .reply g) :
    ∃ b, (R.state n).loader.batch? g = some b ∧ (k, l) ∈ b.waiting := by
  have hthere : ∃ b, (R.state n).loader.batch? g = some b := by
    induction n, (show j + 1 ≤ n from hn) using Nat.le_induction with
    | base =>
      rcases batch_step (R.numbered j) (R.next j) g with
        ⟨l', k', -, -, -, hnew⟩ | ⟨he, -⟩ | ⟨hnot, -⟩
      · exact ⟨_, hnew⟩
      · rw [h.event] at he
        cases he
      · exact absurd h.batch (hnot l h.event)
    | succ n hjn ih =>
      obtain ⟨b, hb⟩ := ih hjn fun r hr => hno r (Nat.lt_succ_of_lt hr)
      rcases batch_step (R.numbered n) (R.next n) g with
        ⟨l', k', -, -, -, hnew⟩ | ⟨he, -⟩ | ⟨-, -, hsame⟩
      · exact ⟨_, hnew⟩
      · exact absurd he (hno n (Nat.lt_succ_self n))
      · exact ⟨b, hsame ▸ hb⟩
  obtain ⟨b, hb⟩ := hthere
  refine ⟨b, hb, ?_⟩
  rw [waiting_eq hb]
  exact mem_joined.2 ⟨j, hn, h⟩

/-- When the batch that a load has joined answers, the load is told once, and what the store has said to
the batch of its key. -/
theorem Joins.told {j l g r : Nat} {k : Key} (h : R.Joins j l k g) (hr : R.event r = .reply g) :
    j < r ∧ ∃ q b answer, j < q ∧ q < r ∧ b.generation = g ∧ R.Hears q b answer ∧
      ((R.state r).loader.reply g).1.filter (·.1 = l) =
        [(l, Flight.result u.entity.key answer k)] := by
  obtain ⟨q, b, answer, hq, hg, hhears, hbatch, htold, hnodup⟩ := R.reply_source hr
  -- The batch has been closed before the store was asked, so the load had joined it by then.
  have hjq : j < q := by
    have hasked := left_settle hhears.1
    rw [hg] at hasked
    by_contra hle
    have hmono := R.left_mono (Nat.le_of_not_lt hle) g
    have hopen := h.le_left
    omega
  have hjr := Nat.lt_trans hjq hq
  have hwaiting := waiting_eq hbatch
  refine ⟨hjr, q, b, answer, hjq, hq, hg, hhears, Flight.filter_replies (hnodup ?_) ?_⟩
  · rw [hwaiting]
    exact nodup_joined g r
  · refine (htold l _).2 ⟨k, ?_, rfl⟩
    rw [hwaiting]
    exact mem_joined.2 ⟨j, hjr, h⟩

/-- A load that the cache knew nothing of hears of nothing but the answer of its batch. -/
theorem answers_of_miss {b l r : Nat} {k : Key} {x : Loaded ρ} (hb : R.Begins b l k)
    (hmiss : (u.look (R.state b) k).1 = none) (hr : R.Answers r l x) :
    ∃ j g, R.Joins j l k g ∧ R.event r = .reply g := by
  have hin : (l, x) ∈ u.answers (R.state r) (R.event r) := hr
  cases he : R.event r with
  | begin k' =>
    rw [he] at hin
    simp only [Setup.answers] at hin
    cases hk : (u.look (R.state r) k').1 with
    | none =>
      rw [hk] at hin
      cases hin
    | some v =>
      rw [hk] at hin
      obtain ⟨rfl, rfl⟩ := Prod.mk.inj (List.mem_singleton.1 hin)
      obtain ⟨rfl, rfl⟩ := hb.unique ⟨he, rfl⟩
      rw [hmiss] at hk
      cases hk
  | reply g =>
    rw [he] at hin
    obtain ⟨q, batch, answer, -, -, -, hbatch, htold, -⟩ := R.reply_source he
    obtain ⟨k', hw, -⟩ := (htold l x).1 (List.mem_filter.1 hin).1
    rw [waiting_eq hbatch] at hw
    obtain ⟨j, -, hjoin⟩ := mem_joined.1 hw
    obtain ⟨b', -, hbegin, -⟩ := R.began_of_missed hjoin.missed
    obtain ⟨-, rfl⟩ := hb.unique hbegin
    exact ⟨j, g, hjoin, rfl⟩
  | join | drop | sleep | fire | ask | settle | write | note | read | prime | close | touch
  | pass =>
    rw [he] at hin
    cases hin

/-- A load that the cache knew nothing of is told what the store has said of its key to the batch that it
has joined. -/
theorem heard_of_answers {b l r : Nat} {k : Key} {x : Loaded ρ} (hb : R.Begins b l k)
    (hmiss : (u.look (R.state b) k).1 = none) (hr : R.Answers r l x) :
    ∃ j q batch answer, b < j ∧ j < q ∧ q < r ∧ R.Joins j l k batch.generation ∧ R.Hears q batch answer ∧
      x = Flight.result u.entity.key answer k := by
  obtain ⟨j, g, hjoins, hreply⟩ := answers_of_miss hb hmiss hr
  obtain ⟨-, q, batch, answer, hjq, hqr, rfl, hhears, htold⟩ := hjoins.told hreply
  obtain ⟨b', hbj, hbegin, -⟩ := R.began_of_missed hjoins.missed
  obtain ⟨rfl, -⟩ := hb.unique hbegin
  refine ⟨j, q, batch, answer, hbj, hjq, hqr, hjoins, hhears, ?_⟩
  have hin : (l, x) ∈ u.answers (R.state r) (R.event r) := hr
  rw [hreply] at hin
  have hmem : (l, x) ∈ ((R.state r).loader.reply batch.generation).1.filter (·.1 = l) :=
    List.mem_filter.2 ⟨(List.mem_filter.1 hin).1, decide_eq_true rfl⟩
  rw [htold] at hmem
  exact (Prod.mk.inj (List.mem_singleton.1 hmem)).2

/-- A load that finds its key in the cache is answered at once, and never again. -/
theorem answers_of_hit {b r l : Nat} {k : Key} {v : Option ρ} {x : Loaded ρ} (hb : R.Begins b l k)
    (hhit : (u.look (R.state b) k).1 = some v) (hr : R.Answers r l x) : r = b ∧ x = .ok v := by
  have hin : (l, x) ∈ u.answers (R.state r) (R.event r) := hr
  cases he : R.event r with
  | begin k' =>
    rw [he] at hin
    simp only [Setup.answers] at hin
    cases hk : (u.look (R.state r) k').1 with
    | none =>
      rw [hk] at hin
      cases hin
    | some v' =>
      rw [hk] at hin
      obtain ⟨rfl, rfl⟩ := Prod.mk.inj (List.mem_singleton.1 hin)
      obtain ⟨rfl, rfl⟩ := hb.unique ⟨he, rfl⟩
      rw [hhit] at hk
      exact ⟨rfl, congrArg _ (Option.some.inj hk).symm⟩
  | reply g =>
    rw [he] at hin
    obtain ⟨q, batch, answer, -, -, -, hbatch, htold, -⟩ := R.reply_source he
    obtain ⟨k', hw, -⟩ := (htold l x).1 (List.mem_filter.1 hin).1
    -- Who waits in a batch has not found anything in the cache.
    obtain ⟨b', -, hbegin, hmiss⟩ := R.began_of_waiting hbatch hw
    obtain ⟨rfl, rfl⟩ := hb.unique hbegin
    rw [hhit] at hmiss
    cases hmiss
  | join | drop | sleep | fire | ask | settle | write | note | read | prime | close | touch
  | pass =>
    rw [he] at hin
    cases hin

/-! ## Delays -/

end ReadThrough.Service.Run
