import ReadThrough.Proofs.Service.Batching
import ReadThrough.Proofs.Service.Calls
/-!
# Loads that nobody else joins

A call that loads several keys has its loads join one after another. If no batch is open when it begins, if
nobody else joins, and if no batch is closed by its delay meanwhile, then the batches are filled one after
another (`Run.Filled`), and the store is asked for the keys in chunks (`Run.Alone.chunked`).
-/

namespace ReadThrough.Service

variable {ρ : Type} {u : Setup ρ}

/-! ## Chunks -/

section

variable {α β : Type}

/-- The chunk of a number of a list that is cut into chunks of one size; the last may be shorter. -/
def chunk (size c : Nat) (l : List α) : List α := (l.drop (c * size)).take size

theorem chunk_eq_nil {size c : Nat} {l : List α} (h : l.length ≤ c * size) : chunk size c l = [] := by
  rw [chunk, List.drop_eq_nil_of_le h, List.take_nil]

theorem chunk_sublist (size c : Nat) (l : List α) : (chunk size c l).Sublist l :=
  (List.take_sublist _ _).trans (List.drop_sublist _ _)

/-- A list that is longer by one has one chunk that is longer by one, the last. -/
theorem chunk_concat {size : Nat} (hsize : 0 < size) (c : Nat) (l : List α) (a : α) :
    chunk size c (l ++ [a]) =
      if c = l.length / size then chunk size c l ++ [a] else chunk size c l := by
  have hlen : size * (l.length / size) + l.length % size = l.length := Nat.div_add_mod _ _
  have hmod := Nat.mod_lt l.length hsize
  rw [Nat.mul_comm] at hlen
  rcases Nat.lt_trichotomy c (l.length / size) with hlt | rfl | hgt
  · -- An earlier chunk is full.
    have hfull : (c + 1) * size ≤ l.length / size * size := Nat.mul_le_mul_right size hlt
    rw [Nat.succ_mul] at hfull
    rw [if_neg (Nat.ne_of_lt hlt), chunk, List.drop_append_of_le_length (by omega),
      List.take_append_of_le_length (by rw [List.length_drop]; omega), chunk]
  · have hrest : (l.drop (l.length / size * size)).length < size := by
      rw [List.length_drop]
      omega
    rw [if_pos rfl, chunk, List.drop_append_of_le_length (by omega), chunk,
      List.take_of_length_le (Nat.le_of_lt hrest), List.take_of_length_le]
    rw [List.length_append]
    exact hrest
  · have hbeyond : (l.length / size + 1) * size ≤ c * size := Nat.mul_le_mul_right size hgt
    rw [Nat.succ_mul] at hbeyond
    have hle : (l ++ [a]).length ≤ c * size := by
      rw [List.length_append, List.length_singleton]
      omega
    rw [if_neg (Nat.ne_of_gt hgt), chunk_eq_nil hle, chunk_eq_nil]
    omega

theorem length_chunk_last {size : Nat} (hsize : 0 < size) (l : List α) :
    (chunk size (l.length / size) l).length = l.length % size := by
  have hlen : size * (l.length / size) + l.length % size = l.length := Nat.div_add_mod _ _
  have hmod := Nat.mod_lt l.length hsize
  rw [Nat.mul_comm] at hlen
  rw [chunk, List.length_take, List.length_drop]
  omega

/-- One more fills the last chunk if the chunk lacks but one. -/
theorem dvd_succ_iff {size : Nat} (hsize : 0 < size) (len : Nat) :
    size ∣ len + 1 ↔ size ≤ len % size + 1 := by
  have hlen : size * (len / size) + (len % size + 1) = len + 1 := by
    have := Nat.div_add_mod len size
    omega
  have hmod := Nat.mod_lt len hsize
  rw [← hlen, Nat.dvd_add_right (Nat.dvd_mul_right _ _)]
  constructor
  · exact Nat.le_of_dvd (Nat.succ_pos _)
  · intro hle
    exact dvd_of_eq (Nat.le_antisymm hle hmod)

end

/-! ## The batch that is open -/

/-- The open batch is the last that has been opened. -/
def Newest (s : Service ρ) : Prop :=
  ∀ b, s.loader.pending = some b → s.loader.generation = b.generation + 1

/-- A load joins the last batch, whether that was open or not. -/
theorem Newest.generation_join {s : Service ρ} (hs : Newest s) (threshold : Nat) (k : Key) (l : Nat) :
    (s.loader.join threshold k l).2.generation = s.loader.current.generation + 1 := by
  rw [Loader.generation_join]
  cases hp : s.loader.pending with
  | none =>
    rw [Loader.generation_current_of_none hp]
    rfl
  | some b =>
    rw [Loader.current_of_pending hp]
    exact hs b hp

theorem Newest.step {s s' : Service ρ} {ev : Event ρ} (hs : Newest s) (h : u.step s ev = some s') :
    Newest s' := by
  intro b hb
  cases step_moves h with
  | @join l k =>
    rw [hs.generation_join u.config.threshold k l]
    rw [Loader.pending_join] at hb
    split at hb
    · cases hb
    · cases hb
      rfl
  | @fire g =>
    by_cases hp : ∃ b, s.loader.pending = some b ∧ b.generation = g
    · obtain ⟨b', hb', rfl⟩ := hp
      rw [Loader.elapse_of_pending hb'] at hb
      cases hb
    · rw [Loader.elapse_of_ne fun b hb hg => hp ⟨b, hb, hg⟩] at hb ⊢
      exact hs b hb
  | begin | drop | sleep | ask | settle | write | reply | note | read | prime | close | touch
  | pass => exact hs b hb

namespace Run

variable (R : Run u)

theorem newest (n : Nat) : Newest (R.state n) :=
  R.always (p := Newest) nofun (fun _ _ _ h hs => hs.step h) n

/-- The batch that is open at a step is not closed by its delay there. -/
def Stays (n : Nat) : Prop :=
  ∀ b, (R.state n).loader.pending = some b → R.event n ≠ .fire b.generation

/-- Some loads have filled the batches from a number on, one batch after another. -/
structure Filled (first : Nat) (ps : List (Key × Nat)) (n : Nat) : Prop where
  joined : ∀ c, R.joined (first + c) n = chunk u.config.threshold c ps
  next : (R.state n).loader.current.generation = first + ps.length / u.config.threshold
  closed_iff : (R.state n).loader.pending = none ↔ u.config.threshold ∣ ps.length

variable {R}

/-- Before anybody has joined them, batches are filled with nothing. -/
theorem Filled.start {n : Nat} (h : (R.state n).loader.pending = none) :
    R.Filled (R.state n).loader.generation [] n where
  joined := by
    intro c
    rw [joined_of_generation_le (Nat.le_add_right _ c), chunk, List.drop_nil, List.take_nil]
  next := by
    rw [Loader.generation_current_of_none h, List.length_nil, Nat.zero_div, Nat.add_zero]
  closed_iff := by
    rw [h, List.length_nil]
    exact ⟨fun _ => Nat.dvd_zero _, fun _ => rfl⟩

/-- Nothing changes for the batches unless somebody joins or a delay closes one. -/
theorem Filled.idle {first n : Nat} {ps : List (Key × Nat)} (h : R.Filled first ps n)
    (hno : ∀ l, R.event n ≠ .join l) (hstays : R.Stays n) : R.Filled first ps (n + 1) := by
  have hpending : (R.state (n + 1)).loader.pending = (R.state n).loader.pending := by
    rcases pending_step (R.next n) with ⟨l, -, he, -⟩ | ⟨b, hb, he, -⟩ | ⟨-, hsame⟩
    · exact absurd he (hno l)
    · exact absurd he (hstays b hb)
    · exact hsame
  have hcurrent : (R.state (n + 1)).loader.current = (R.state n).loader.current := by
    rw [Loader.current, hpending, generation_eq_of_not_join (R.next n) hno, Loader.current]
  constructor
  · intro c
    rw [joined_succ_of_not fun l he => absurd he (hno l), h.joined c]
  · rw [hcurrent, h.next]
  · rw [hpending, h.closed_iff]

theorem Joins.loader_succ {n l g : Nat} {k : Key} (h : R.Joins n l k g) :
    (R.state (n + 1)).loader = ((R.state n).loader.join u.config.threshold k l).2 := by
  have hstep := R.next n
  rw [h.event] at hstep
  generalize R.state (n + 1) = s' at hstep
  cases step_moves hstep with | join hk =>
  cases h.missed.symm.trans hk
  rfl

/-- A load goes into the last batch. -/
theorem Filled.joined_grow {first n l g : Nat} {k : Key} {ps : List (Key × Nat)} (h : R.Filled first ps n)
    (hjoin : R.Joins n l k g) (c : Nat) :
    R.joined (first + c) (n + 1) = chunk u.config.threshold c (ps ++ [(k, l)]) := by
  have hg : g = first + ps.length / u.config.threshold := hjoin.batch.symm.trans h.next
  rw [chunk_concat (threshold_pos u)]
  split
  · rename_i hc
    have hlast : R.Joins n l k (first + c) := by rwa [hc, ← hg]
    rw [hlast.joined_succ, h.joined c]
  · rename_i hc
    rw [joined_succ_of_not, h.joined c]
    intro l' _ hbatch
    rw [hjoin.batch] at hbatch
    omega

/-- The last batch has as many keys as its chunk, since nobody has loaded the key before. -/
theorem Filled.size_push {first n l g : Nat} {k : Key} {ps : List (Key × Nat)} (h : R.Filled first ps n)
    (hjoin : R.Joins n l k g) (hnodup : ((ps ++ [(k, l)]).map Prod.fst).Nodup) :
    ((R.state n).loader.current.push k l).size = ps.length % u.config.threshold + 1 := by
  have hpos := threshold_pos u
  have hlast : R.joined g (n + 1) =
      chunk u.config.threshold (ps.length / u.config.threshold) (ps ++ [(k, l)]) := by
    rw [← h.joined_grow hjoin, ← h.next, hjoin.batch]
  have hkeys : ((R.joined g (n + 1)).map Prod.fst).Nodup := by
    rw [hlast]
    exact hnodup.sublist ((chunk_sublist _ _ _).map _)
  rw [Batch.size, hjoin.keys_push, distinct_eq_self hkeys, hlast, List.length_map, chunk_concat hpos,
    if_pos rfl, List.length_append, length_chunk_last hpos, List.length_singleton]

/-- A load with another key closes the last batch if it is full, and leaves it open otherwise. -/
theorem Filled.grow {first n l g : Nat} {k : Key} {ps : List (Key × Nat)} (h : R.Filled first ps n)
    (hjoin : R.Joins n l k g) (hnodup : ((ps ++ [(k, l)]).map Prod.fst).Nodup) :
    R.Filled first (ps ++ [(k, l)]) (n + 1) := by
  have hg : g = first + ps.length / u.config.threshold := hjoin.batch.symm.trans h.next
  have hfull := dvd_succ_iff (threshold_pos u) ps.length
  have hdiv : (ps.length + 1) / u.config.threshold = _ := Nat.succ_div
  have hpending := Loader.pending_join (R.state n).loader u.config.threshold k l
  have hgeneration := (R.newest n).generation_join u.config.threshold k l
  rw [← hjoin.loader_succ, h.size_push hjoin hnodup] at hpending
  rw [← hjoin.loader_succ, hjoin.batch] at hgeneration
  have hlength : (ps ++ [(k, l)]).length = ps.length + 1 := List.length_append
  by_cases hclosed : u.config.threshold ≤ ps.length % u.config.threshold + 1
  · rw [if_pos hclosed] at hpending
    rw [if_pos (hfull.2 hclosed)] at hdiv
    refine ⟨h.joined_grow hjoin, ?_, ?_⟩
    · rw [Loader.generation_current_of_none hpending, hgeneration, hlength]
      omega
    · rw [hlength]
      exact ⟨fun _ => hfull.2 hclosed, fun _ => hpending⟩
  · rw [if_neg hclosed] at hpending
    rw [if_neg fun hdvd => hclosed (hfull.1 hdvd)] at hdiv
    refine ⟨h.joined_grow hjoin, ?_, ?_⟩
    · rw [Loader.current_of_pending hpending, Batch.generation_push, hjoin.batch, hlength]
      omega
    · rw [hlength, hpending]
      exact ⟨nofun, fun hdvd => absurd (hfull.1 hdvd) hclosed⟩

/-! ## A call that is alone -/

variable (R) in
/-- From a step on and before another one, a call begins loads and has them join a batch, one load after
another. So the cache knows nothing of their keys. -/
inductive Enqueues (m : Nat) : Nat → List (Key × Nat) → Prop where
  | done {n : Nat} (before : n ≤ m) : Enqueues m n []
  | load {n b j l : Nat} {k : Key} {ps : List (Key × Nat)} (after : n ≤ b) (begins : R.Begins b l k)
      (waits : b < j) (joins : R.event j = .join l) (rest : Enqueues m (j + 1) ps) :
      Enqueues m n ((k, l) :: ps)

theorem Enqueues.le {m n : Nat} {ps : List (Key × Nat)} (h : R.Enqueues m n ps) : n ≤ m := by
  induction h with
  | done before => exact before
  | load after _ waits _ _ ih => omega

/-- The loads of a call join a batch one after another if the cache knows of none of their keys. -/
theorem FansOut.enqueues {m n : Nat} {keys : List Key} {ls : List Nat} (h : R.FansOut m n keys ls)
    (hcold : ∀ l ∈ ls, ∀ b k, R.Begins b l k → (u.look (R.state b) k).1 = none) :
    R.Enqueues m n (keys.zip ls) := by
  induction h with
  | done before => exact .done before
  | known _ begins known _ _ =>
    rw [hcold _ List.mem_cons_self _ _ begins] at known
    cases known
  | asks after begins _ waits joins _ ih =>
    exact .load after begins waits joins (ih fun l hl => hcold l (List.mem_cons_of_mem _ hl))

/-- Every load of the call has joined a batch. -/
theorem Enqueues.joins {m n : Nat} {ps : List (Key × Nat)} (h : R.Enqueues m n ps) :
    ∀ p ∈ ps, ∃ j g, n ≤ j ∧ j < m ∧ R.Joins j p.2 p.1 g := by
  induction h with
  | done => exact nofun
  | @load n b j l k ps after begins waits joins rest ih =>
    refine List.forall_mem_cons.2 ⟨?_, fun p hp => ?_⟩
    · obtain ⟨g, hjoins⟩ := joins_of_event begins joins
      exact ⟨j, g, by omega, rest.le, hjoins⟩
    · obtain ⟨j', g, hj', hm, hjoins⟩ := ih p hp
      exact ⟨j', g, by omega, hm, hjoins⟩

/-- Nobody joins twice, so a load of the call joins only then. -/
theorem Enqueues.between {m n i l : Nat} {ps : List (Key × Nat)} (h : R.Enqueues m n ps)
    (hl : l ∈ ps.map Prod.snd) (he : R.event i = .join l) : n ≤ i ∧ i < m := by
  obtain ⟨⟨k, _⟩, hp, rfl⟩ := List.mem_map.1 hl
  obtain ⟨j, g, hnj, hjm, hjoins⟩ := h.joins _ hp
  obtain ⟨k', hk'⟩ := missed_of_join (he ▸ R.next i)
  obtain ⟨rfl, -⟩ := (Joins.mk he hk' rfl).unique hjoins
  exact ⟨hnj, hjm⟩

/-- Nothing changes for the batches while nobody joins and no delay closes one. -/
theorem Filled.idle_until {first n m : Nat} {ps : List (Key × Nat)} (h : R.Filled first ps n) (hnm : n ≤ m)
    (hno : ∀ i, n ≤ i → i < m → ∀ l, R.event i ≠ .join l) (hstays : ∀ i, n ≤ i → i < m → R.Stays i) :
    R.Filled first ps m := by
  induction m, hnm using Nat.le_induction with
  | base => exact h
  | succ m hnm ih =>
    have hm := ih (fun i hi him => hno i hi (Nat.lt_succ_of_lt him))
      (fun i hi him => hstays i hi (Nat.lt_succ_of_lt him))
    exact hm.idle (hno m hnm (Nat.lt_succ_self m)) (hstays m hnm (Nat.lt_succ_self m))

/-- The loads of a call that is alone fill the batches. -/
theorem Filled.enqueue {first m n : Nat} {done ps : List (Key × Nat)} (h : R.Filled first done n)
    (hps : R.Enqueues m n ps) (hnodup : ((done ++ ps).map Prod.fst).Nodup)
    (halone : ∀ i, n ≤ i → ∀ l, R.event i = .join l → l ∈ ps.map Prod.snd)
    (hstays : ∀ i, n ≤ i → i < m → R.Stays i) : R.Filled first (done ++ ps) m := by
  induction hps generalizing done with
  | @done n before =>
    rw [List.append_nil]
    exact h.idle_until before (fun i hi _ l he => nomatch halone i hi l he) hstays
  | @load n b j l k ps after begins waits joins rest ih =>
    obtain ⟨g, hjoins⟩ := joins_of_event begins joins
    -- Whoever joins at another step than the first load is one of those after it.
    have hlater : ∀ i, n ≤ i → i ≠ j → ∀ l', R.event i = .join l' → j < i ∧ l' ∈ ps.map Prod.snd := by
      intro i hi hij l' he
      rcases List.mem_cons.1 (halone i hi l' he) with rfl | hl'
      · obtain ⟨g', hjoins'⟩ := joins_of_event begins he
        exact absurd (hjoins'.unique hjoins).1 hij
      · exact ⟨(rest.between hl' he).1, hl'⟩
    have hm := rest.le
    have hready := h.idle_until (Nat.le_trans after (Nat.le_of_lt waits))
      (fun i hi hij l' he => by
        have := (hlater i hi (Nat.ne_of_lt hij) l' he).1
        omega)
      (fun i hi hij => hstays i hi (by omega))
    rw [List.append_cons] at hnodup ⊢
    refine ih (hready.grow hjoins ?_) hnodup (fun i hi l' he => ?_) (fun i hi him => ?_)
    · rw [List.map_append] at hnodup
      exact hnodup.sublist (List.sublist_append_left _ _)
    · exact (hlater i (by omega) (by omega) l' he).2
    · exact hstays i (by omega) him

variable (R) in
/-- A call is alone when it loads: the cache knows of none of its keys, which are different from each other, no
batch is open, and nobody else ever joins a batch afterwards; and no batch is closed by its delay until all its
loads have begun. -/
structure Alone (n m : Nat) (ls : List Nat) (keys : List Key) : Prop where
  cold : ∀ l ∈ ls, ∀ b k, R.Begins b l k → (u.look (R.state b) k).1 = none
  nodup : keys.Nodup
  closed : (R.state n).loader.pending = none
  only : ∀ i, n ≤ i → ∀ l, R.event i = .join l → l ∈ ls
  stays : ∀ i, n ≤ i → i < m → R.Stays i

namespace Alone

variable {keys : List Key} {ls : List Nat} {n m : Nat}

/-- When all loads of the call have joined, the chunks are what has joined the batches, for ever. -/
theorem joined (h : R.Alone n m ls keys) (hps : R.FansOut m n keys ls) {t c : Nat} (ht : m ≤ t) :
    R.joined ((R.state n).loader.generation + c) t = chunk u.config.threshold c (keys.zip ls) := by
  have henqueues := hps.enqueues h.cold
  have hlength := hps.begins.length_eq
  have hfst : (keys.zip ls).map Prod.fst = keys := List.map_fst_zip (Nat.le_of_eq hlength)
  have hsnd : (keys.zip ls).map Prod.snd = ls := List.map_snd_zip (Nat.le_of_eq hlength.symm)
  have honly : ∀ i, n ≤ i → ∀ l, R.event i = .join l → l ∈ (keys.zip ls).map Prod.snd := by
    intro i hi l he
    rw [hsnd]
    exact h.only i hi l he
  have hfilled := (Filled.start h.closed).enqueue henqueues (by rw [List.nil_append, hfst]; exact h.nodup)
    honly h.stays
  induction t, ht using Nat.le_induction with
  | base => exact hfilled.joined c
  | succ t ht ih =>
    rw [joined_succ_of_not, ih]
    intro l he
    have := (henqueues.between (honly t (Nat.le_trans henqueues.le ht) l he) he).2
    omega

end Alone

end Run

end ReadThrough.Service
