import ReadThrough.Proofs.Service.Joining
/-!
# Everybody is answered

In a run in which nobody who can go on waits for ever (`Run.Fair`), every batch answers
(`Run.Fair.replies_of_batch`) and so every load that the cache knows nothing of is served
(`Run.Fair.served`). A run that comes to rest is of this kind (`Run.Fair.of_rest`).
-/

namespace ReadThrough.Service

variable {ρ : Type} {u : Setup ρ} {s : Service ρ}

/-- A batch that has been closed has less before it than one that is open. -/
theorem Sound.left_lt (hs : Sound u s) {g : Nat} (hg : g < s.loader.generation)
    (hp : ∀ b, s.loader.pending = some b → b.generation ≠ g) :
    u.left s g < u.config.threshold + 4 := by
  cases hf : s.loader.flight? g with
  | none =>
    rw [left_of_gone hf hp hg]
    exact Nat.succ_pos _
  | some f =>
    obtain ⟨b, stage⟩ := f
    rw [left_of_flight hf]
    cases stage with
    | closed | asked | failed =>
      simp only [Setup.leftAt]
      omega
    | answered epoch values unwritten =>
      have hle := hs.unwritten_le g b epoch values unwritten hf
      have hsize := (hs.flight_size g _ hf).2
      simp only [Setup.leftAt] at hsize ⊢
      omega

namespace Run

variable {R : Run u}

/-- Nobody who can go on waits for ever: loads that are about to join a batch do, delays begin and end,
closed batches ask the store, the store answers, and batches write what they have learned and answer. -/
structure Fair (R : Run u) : Prop where
  joins : ∀ n l k, (R.state n).missed.find? l = some k → ∃ m, n ≤ m ∧ R.event m = .join l
  sleeps : ∀ n g, { generation := g } ∈ (R.state n).delays → ∃ m, n ≤ m ∧ R.event m = .sleep g
  fires : ∀ n g due, { generation := g, due := some due } ∈ (R.state n).delays →
    ∃ m, n ≤ m ∧ R.event m = .fire g
  asks : ∀ n g b, (R.state n).loader.flight? g = some { batch := b } →
    ∃ m, n ≤ m ∧ R.event m = .ask g
  settles : ∀ n g b epoch,
    (R.state n).loader.flight? g = some { batch := b, stage := .asked epoch } →
      ∃ m answer, n ≤ m ∧ R.event m = .settle g answer
  writes : ∀ n g b epoch values v unwritten,
    (R.state n).loader.flight? g =
        some { batch := b, stage := .answered epoch values (v :: unwritten) } →
      ∃ m, n ≤ m ∧ R.event m = .write g
  replies : ∀ n g f, (R.state n).loader.flight? g = some f → f.ended = true →
    ∃ m, n ≤ m ∧ R.event m = .reply g

/-- A batch is gone only when it has answered. -/
theorem replied_of_gone {n m g : Nat} {b : Batch Nat} (h : (R.state n).loader.batch? g = some b)
    (hnm : n ≤ m) (hm : (R.state m).loader.batch? g = none) :
    ∃ r, n ≤ r ∧ R.event r = .reply g := by
  have hthere : (R.state n).loader.batch? g ≠ none := by
    rw [h]
    nofun
  obtain ⟨r, hnr, -, hr, hgone⟩ :=
    R.lost (p := fun s => s.loader.batch? g ≠ none) hthere hnm (not_not.2 hm)
  refine ⟨r, hnr, ?_⟩
  rcases batch_step (R.numbered r) (R.next r) g with
    ⟨l, k, -, -, -, hnew⟩ | ⟨he, -, -⟩ | ⟨-, -, hsame⟩
  · refine absurd (not_not.1 hgone) ?_
    rw [hnew]
    nofun
  · exact he
  · exact absurd (hsame.symm.trans (not_not.1 hgone)) hr

/-- A delay that has not ended ends. -/
theorem Fair.fires_of_timer (hF : R.Fair) {n g : Nat} (h : g ∈ (R.state n).timers) :
    ∃ m, n ≤ m ∧ R.event m = .fire g := by
  obtain ⟨⟨g', due⟩, hd, rfl⟩ := List.mem_map.1 h
  cases due with
  | some due => exact hF.fires n g' due hd
  | none =>
    obtain ⟨m, hnm, he⟩ := hF.sleeps n g' hd
    obtain ⟨due, hdue⟩ := delay_of_sleep (he ▸ R.next m)
    obtain ⟨m', hmm', he'⟩ := hF.fires (m + 1) g' due hdue
    exact ⟨m', by omega, he'⟩

/-- A batch goes on, or answers. -/
theorem Fair.advances (hF : R.Fair) {n g : Nat} {b : Batch Nat}
    (h : (R.state n).loader.batch? g = some b) :
    (∃ m, n ≤ m ∧ u.left (R.state (m + 1)) g < u.left (R.state n) g) ∨
      ∃ r, n ≤ r ∧ R.event r = .reply g := by
  have going : ∀ m, n ≤ m → (R.event m).flight? = some g →
      ∃ m, n ≤ m ∧ u.left (R.state (m + 1)) g < u.left (R.state n) g := fun m hnm hev =>
    ⟨m, hnm, Nat.lt_of_lt_of_le (left_advances hev) (R.left_mono hnm g)⟩
  obtain ⟨rfl, hp | ⟨⟨_, stage⟩, hf, rfl⟩⟩ := Loader.batch?_eq_some h
  · -- An open batch is closed when its delay ends, if it has not been closed by then.
    have hs := R.sound n
    obtain ⟨m, hnm, he⟩ := hF.fires_of_timer (hs.pending_timer b hp)
    have hopen := left_of_pending hs hp
    refine .inl ⟨m, hnm, ?_⟩
    by_cases hpm : ∃ b', (R.state m).loader.pending = some b' ∧ b'.generation = b.generation
    · obtain ⟨b', hb', hg⟩ := hpm
      have hclose : Closes u (R.state m) (R.event m) b' := by
        rw [he, ← hg]
        exact .due hb'
      have := (left_closes hclose).1
      rw [hg] at this
      omega
    · have hlt := Nat.lt_of_lt_of_le (hs.numbered.pending_lt b hp) (R.generation_mono hnm)
      have hless := (R.sound m).left_lt hlt fun b' hb' hg => hpm ⟨b', hb', hg⟩
      have hmono := (R.sound m).left_step (R.next m) b.generation
      omega
  · cases stage with
    | closed =>
      obtain ⟨m, hnm, he⟩ := hF.asks n _ _ hf
      exact .inl (going m hnm (by rw [he]; rfl))
    | asked epoch =>
      obtain ⟨m, answer, hnm, he⟩ := hF.settles n _ _ _ hf
      exact .inl (going m hnm (by rw [he]; rfl))
    | answered epoch values unwritten =>
      cases unwritten with
      | nil => exact .inr (hF.replies n _ _ hf rfl)
      | cons v unwritten =>
        obtain ⟨m, hnm, he⟩ := hF.writes n _ _ _ _ _ _ hf
        exact .inl (going m hnm (by rw [he]; rfl))
    | failed e => exact .inr (hF.replies n _ _ hf rfl)

/-- Every batch answers. -/
theorem Fair.replies_of_batch (hF : R.Fair) {n g : Nat} {b : Batch Nat}
    (h : (R.state n).loader.batch? g = some b) : ∃ r, n ≤ r ∧ R.event r = .reply g := by
  generalize hleft : u.left (R.state n) g = left
  -- The induction is on what the batch still has before it.
  induction left using Nat.strongRecOn generalizing n b with
  | ind left ih =>
    rcases hF.advances h with ⟨m, hnm, hless⟩ | hreply
    · cases hb : (R.state (m + 1)).loader.batch? g with
      | some b' =>
        obtain ⟨r, hr, he⟩ := ih _ (hleft ▸ hless) hb rfl
        exact ⟨r, by omega, he⟩
      | none => exact replied_of_gone h (by omega) hb
    · exact hreply

/-- Until a load that the cache knows nothing of has joined a batch, it is about to. -/
theorem ready_of_begins {b l n : Nat} {k : Key} (hb : R.Begins b l k)
    (hmiss : (u.look (R.state b) k).1 = none) (hn : b < n) (hno : ∀ j < n, R.event j ≠ .join l) :
    (R.state n).missed.find? l = some k := by
  induction n, (show b + 1 ≤ n from hn) using Nat.le_induction with
  | base =>
    rw [← hb.2]
    exact missed_of_begin (hb.1 ▸ R.next b) hmiss
  | succ n hbn ih =>
    have hbefore := ih hbn fun j hj => hno j (Nat.lt_succ_of_lt hj)
    rcases missed_step (R.next n) l with ⟨k', -, hl, -⟩ | ⟨he, -⟩ | ⟨-, hsame⟩
    · have := hb.lt_loads hbn
      omega
    · exact absurd he (hno n (Nat.lt_succ_self n))
    · rw [hsame, hbefore]

/-- A step at which a load of a known key joins a batch. -/
theorem joins_of_event {b l j : Nat} {k : Key} (hb : R.Begins b l k) (he : R.event j = .join l) :
    ∃ g, R.Joins j l k g := by
  obtain ⟨k', hk'⟩ := missed_of_join (he ▸ R.next j)
  obtain ⟨b', -, hbegin, -⟩ := R.began_of_missed hk'
  obtain ⟨-, rfl⟩ := hb.unique hbegin
  exact ⟨_, he, hk', rfl⟩

/-- Every load that the cache knows nothing of joins a batch, and the batch answers. -/
theorem Fair.served (hF : R.Fair) {b l : Nat} {k : Key} (hb : R.Begins b l k)
    (hmiss : (u.look (R.state b) k).1 = none) :
    ∃ j g r, R.Joins j l k g ∧ j < r ∧ R.event r = .reply g := by
  have hready : (R.state (b + 1)).missed.find? l = some k := by
    rw [← hb.2]
    exact missed_of_begin (hb.1 ▸ R.next b) hmiss
  obtain ⟨j, -, he⟩ := hF.joins (b + 1) l k hready
  obtain ⟨g, hjoin⟩ := joins_of_event hb he
  obtain ⟨batch, hbatch, -⟩ : ∃ batch, (R.state (j + 1)).loader.batch? g = some batch ∧
      (k, l) ∈ batch.waiting := by
    rcases batch_step (R.numbered j) (R.next j) g with
      ⟨l', k', he', hk', -, hnew⟩ | ⟨he', -⟩ | ⟨hnot, -⟩
    · rw [he] at he'
      cases he'
      refine ⟨_, hnew, ?_⟩
      rw [hjoin.missed] at hk'
      cases hk'
      simp
    · rw [he] at he'
      cases he'
    · exact absurd hjoin.batch (hnot l he)
  obtain ⟨r, hr, hreply⟩ := hF.replies_of_batch hbatch
  exact ⟨j, g, r, hjoin, hr, hreply⟩

/-! ## Coming to rest -/

end Run

/-- Nobody waits for anything. -/
structure AtRest (s : Service ρ) : Prop where
  missed : s.missed.entries = []
  delays : s.delays = []
  flights : s.loader.flights = []

theorem AtRest.find? (h : s.AtRest) (l : Nat) : s.missed.find? l = none := by
  rw [Dict.find?, h.missed]
  rfl

theorem AtRest.flight? (h : s.AtRest) (g : Nat) : s.loader.flight? g = none := by
  rw [Loader.flight?, h.flights]
  rfl

/-- A delay is gone when it has begun or ended. -/
theorem event_of_delay_gone {ev : Event ρ} (h : u.step s ev = some s') {d : Delay}
    (hd : d ∈ s.delays) (hgone : d ∉ s'.delays) :
    (ev = .sleep d.generation ∧ d.due = none) ∨ ev = .fire d.generation := by
  cases step_moves h with
  | join => exact absurd (List.mem_append_left _ hd) hgone
  | @sleep g =>
    by_cases he : d = { generation := g }
    · subst he
      exact .inl ⟨rfl, rfl⟩
    · exact (hgone (List.mem_map.2 ⟨d, hd, if_neg he⟩)).elim
  | @fire g =>
    by_cases he : d.generation = g
    · subst he
      exact .inr rfl
    · exact absurd (List.mem_filter.2 ⟨hd, decide_eq_true he⟩) hgone
  | begin | drop | ask | settle | write | reply | note | read | prime | close | touch | pass =>
    exact absurd hd hgone

/-- A batch has one delay. -/
theorem Sound.delay_unique (hs : Sound u s) {d d' : Delay} (hd : d ∈ s.delays) (hd' : d' ∈ s.delays)
    (h : d.generation = d'.generation) : d = d' :=
  List.inj_on_of_nodup_map hs.timers_nodup hd hd' h

namespace Run

variable {R : Run u}

/-- A flight that is not there any more, or has changed, has gone on or has ended. -/
theorem flight_goes {n m g : Nat} {f : Flight ρ Nat} (h : (R.state n).loader.flight? g = some f)
    (hnm : n ≤ m) (hm : (R.state m).loader.flight? g ≠ some f) :
    ∃ i, n ≤ i ∧ ((∃ f', Advances u (R.state i) (R.event i) f f') ∨
      (R.event i = .reply g ∧ f.ended = true)) := by
  obtain ⟨i, hni, -, hi, hgone⟩ :=
    R.lost (p := fun s => s.loader.flight? g = some f) h hnm hm
  refine ⟨i, hni, ?_⟩
  rcases flight_step (R.numbered i) (R.next i) g with
    hsame | ⟨b, -, -, hnone, -⟩ | ⟨f₀, f', hf₀, hadv, -⟩ | ⟨he, ⟨f₀, hf₀, hended⟩, -⟩
  · exact absurd (hsame.trans hi) hgone
  · rw [hnone] at hi
    cases hi
  · rw [hf₀] at hi
    cases hi
    exact .inl ⟨f', hadv⟩
  · rw [hf₀] at hi
    cases hi
    exact .inr ⟨he, hended⟩

/-- A load that was about to join a batch and no longer is has joined one. -/
theorem joined_of_lost {n m l : Nat} {k : Key} (h : (R.state n).missed.find? l = some k) (hnm : n ≤ m)
    (hm : (R.state m).missed.find? l ≠ some k) : ∃ i, n ≤ i ∧ R.event i = .join l := by
  obtain ⟨i, hni, -, hi, hgone⟩ :=
    R.lost (p := fun s => s.missed.find? l = some k) h hnm hm
  refine ⟨i, hni, ?_⟩
  rcases missed_step (R.next i) l with ⟨k', -, hl, -⟩ | ⟨he, -⟩ | ⟨-, hsame⟩
  · -- The number of the load has been given already.
    obtain ⟨b, hb, hbegin, -⟩ := R.began_of_missed hi
    have := hbegin.lt_loads hb
    omega
  · exact he
  · exact absurd (hsame.trans hi) hgone

/-- A delay that is gone or has begun has begun or ended. -/
theorem delay_goes {n m : Nat} {d : Delay} (h : d ∈ (R.state n).delays) (hnm : n ≤ m)
    (hm : d ∉ (R.state m).delays) :
    ∃ i, n ≤ i ∧ d ∈ (R.state i).delays ∧
      ((R.event i = .sleep d.generation ∧ d.due = none) ∨ R.event i = .fire d.generation) := by
  obtain ⟨i, hni, -, hi, hgone⟩ := R.lost (p := fun s => d ∈ s.delays) h hnm hm
  exact ⟨i, hni, hi, event_of_delay_gone (R.next i) hi hgone⟩

/-- In a run that comes to rest nobody waits for ever. -/
theorem Fair.of_rest {N : Nat} (h : ∀ n, N ≤ n → (R.state n).AtRest) : R.Fair := by
  -- Whatever anybody waits for, there is a later step at which it is gone.
  have later : ∀ n, n ≤ max n N ∧ (R.state (max n N)).AtRest := fun n =>
    ⟨Nat.le_max_left n N, h _ (Nat.le_max_right n N)⟩
  have goes : ∀ {n g : Nat} {f : Flight ρ Nat}, (R.state n).loader.flight? g = some f →
      ∃ i, n ≤ i ∧ ((∃ f', Advances u (R.state i) (R.event i) f f') ∨
        (R.event i = .reply g ∧ f.ended = true)) := by
    intro n g f hf
    obtain ⟨hle, hrest⟩ := later n
    refine flight_goes hf hle ?_
    rw [hrest.flight? g]
    nofun
  constructor
  case joins =>
    intro n l k hk
    obtain ⟨hle, hrest⟩ := later n
    exact joined_of_lost hk hle (by rw [hrest.find? l]; nofun)
  case sleeps =>
    intro n g hd
    obtain ⟨hle, hrest⟩ := later n
    obtain ⟨i, hni, hi, ⟨he, -⟩ | he⟩ := delay_goes hd hle (by rw [hrest.delays]; nofun)
    · exact ⟨i, hni, he⟩
    · -- A delay that has not begun does not end.
      obtain ⟨due, hdue, -⟩ := delay_of_fire (he ▸ R.next i)
      cases (R.sound i).delay_unique hi hdue rfl
  case fires =>
    intro n g due hd
    obtain ⟨hle, hrest⟩ := later n
    obtain ⟨i, hni, -, ⟨-, hnone⟩ | he⟩ := delay_goes hd hle (by rw [hrest.delays]; nofun)
    · cases hnone
    · exact ⟨i, hni, he⟩
  case asks =>
    intro n g b hf
    obtain ⟨-, rfl⟩ := Loader.mem_flights_of_flight? hf
    obtain ⟨i, hni, ⟨f', hadv⟩ | ⟨-, hended⟩⟩ := goes hf
    · generalize he : R.event i = ev at hadv
      cases hadv
      exact ⟨i, hni, he⟩
    · cases hended
  case settles =>
    intro n g b epoch hf
    obtain ⟨-, rfl⟩ := Loader.mem_flights_of_flight? hf
    obtain ⟨i, hni, ⟨f', hadv⟩ | ⟨-, hended⟩⟩ := goes hf
    · generalize he : R.event i = ev at hadv
      cases hadv with
      | answered => exact ⟨i, _, hni, he⟩
      | failed => exact ⟨i, _, hni, he⟩
    · cases hended
  case writes =>
    intro n g b epoch values v unwritten hf
    obtain ⟨-, rfl⟩ := Loader.mem_flights_of_flight? hf
    obtain ⟨i, hni, ⟨f', hadv⟩ | ⟨-, hended⟩⟩ := goes hf
    · generalize he : R.event i = ev at hadv
      cases hadv
      exact ⟨i, hni, he⟩
    · cases hended
  case replies =>
    intro n g f hf hended
    obtain ⟨i, hni, ⟨f', hadv⟩ | ⟨he, -⟩⟩ := goes hf
    · generalize R.event i = ev at hadv
      cases hadv <;> cases hended
    · exact ⟨i, hni, he⟩

end Run

end ReadThrough.Service
