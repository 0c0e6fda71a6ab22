import ReadThrough.Proofs.Service.Run
/-!
# The life of a batch

In every state that a service reaches its batches are `Sound`: an open batch has fewer keys than would
close it and a delay of its own that has not ended, and no batch has more keys than it may have. What a
batch still has before it (`Setup.left`) never becomes more, and becomes less with each of the steps of
its life; so it takes none of them twice.
-/

namespace ReadThrough.Service

variable {ρ : Type} {u : Setup ρ} {s s' : Service ρ}

theorem threshold_pos (u : Setup ρ) : 0 < u.config.threshold :=
  Nat.lt_of_lt_of_le Nat.one_pos (Nat.le_max_left _ _)

/-- What holds of the loads and the batches of a service in every state. -/
structure Sound (u : Setup ρ) (s : Service ρ) : Prop where
  missed_lt : ∀ l k, s.missed.find? l = some k → l < s.loads
  numbered : s.loader.Numbered
  pending_size : ∀ b, s.loader.pending = some b → 0 < b.size ∧ b.size < u.config.threshold
  flight_size : ∀ g f, s.loader.flight? g = some f →
    0 < f.batch.size ∧ f.batch.size ≤ u.config.threshold
  unwritten_le : ∀ g b epoch values unwritten,
    s.loader.flight? g = some { batch := b, stage := .answered epoch values unwritten } →
      unwritten.length ≤ b.size
  timers_nodup : s.timers.Nodup
  timers_lt : ∀ g ∈ s.timers, g < s.loader.generation
  pending_timer : ∀ b, s.loader.pending = some b → b.generation ∈ s.timers

theorem sound_fresh (u : Setup ρ) : Sound u u.fresh where
  missed_lt := nofun
  numbered := Loader.numbered_empty
  pending_size := nofun
  flight_size := nofun
  unwritten_le := nofun
  timers_nodup := List.nodup_nil
  timers_lt := nofun
  pending_timer := nofun

/-- The batch that a load joins has a key at least, and one more than a batch may have while it is open
at most. -/
theorem Sound.size_push (hs : Sound u s) (k : Key) (l : Nat) :
    0 < (s.loader.current.push k l).size ∧
      (s.loader.current.push k l).size ≤ u.config.threshold := by
  refine ⟨Batch.size_push_pos _ _ _, ?_⟩
  have hle := Batch.size_push_le s.loader.current k l
  have hpos := threshold_pos u
  cases hp : s.loader.pending with
  | none =>
    have hcur : s.loader.current.size = 0 := by
      rw [Loader.current, hp]
      rfl
    omega
  | some b =>
    have := hs.pending_size b hp
    rw [Loader.current_of_pending hp] at hle ⊢
    omega

theorem Sound.closes_size (hs : Sound u s) {ev : Event ρ} {b : Batch Nat} (h : Closes u s ev b) :
    0 < b.size ∧ b.size ≤ u.config.threshold := by
  cases h with
  | full => exact hs.size_push _ _
  | due hp =>
    have := hs.pending_size b hp
    omega

section

variable {ev : Event ρ} (hs : Sound u s) (h : u.step s ev = some s')
include hs h

theorem Sound.missed_lt_step {l : Nat} {k : Key} (hk : s'.missed.find? l = some k) : l < s'.loads := by
  have hloads := loads_step h
  rcases missed_step h l with ⟨k', rfl, rfl, -, -⟩ | ⟨-, hgone⟩ | ⟨-, hsame⟩
  · rw [hloads]
    exact Nat.lt_succ_self _
  · rw [hgone] at hk
    cases hk
  · have := hs.missed_lt l k (hsame ▸ hk)
    omega

/-- A batch that stays open after a load has joined it is not full. -/
theorem Sound.pending_size_step {b : Batch Nat} (hb : s'.loader.pending = some b) :
    0 < b.size ∧ b.size < u.config.threshold := by
  rcases pending_step h with ⟨l, k, -, -, hp⟩ | ⟨-, -, -, hp⟩ | ⟨-, hp⟩
  · rw [hp] at hb
    split at hb
    · cases hb
    · rename_i hfull
      cases hb
      exact ⟨(hs.size_push k l).1, Nat.lt_of_not_le hfull⟩
  · rw [hp] at hb
    cases hb
  · exact hs.pending_size b (hp ▸ hb)

theorem Sound.flight_size_step {g : Nat} {f : Flight ρ Nat} (hf : s'.loader.flight? g = some f) :
    0 < f.batch.size ∧ f.batch.size ≤ u.config.threshold := by
  rcases flight_step hs.numbered h g with
    hsame | ⟨b, hclose, -, -, hnew⟩ | ⟨f₀, f₁, hf₀, hadv, hnew⟩ | ⟨-, -, hgone⟩
  · exact hs.flight_size g f (hsame ▸ hf)
  · rw [hnew] at hf
    cases hf
    exact hs.closes_size hclose
  · rw [hnew] at hf
    cases hf
    rw [hadv.batch_eq]
    exact hs.flight_size g f₀ hf₀
  · rw [hgone] at hf
    cases hf

/-- At first all keys of a batch are still to be written, if any, and then fewer and fewer. -/
theorem Sound.unwritten_step {g : Nat} {b : Batch Nat} {epoch : Epoch}
    {values unwritten : List (Key × Option ρ)}
    (hf : s'.loader.flight? g = some { batch := b, stage := .answered epoch values unwritten }) :
    unwritten.length ≤ b.size := by
  rcases flight_step hs.numbered h g with
    hsame | ⟨b, hclose, -, -, hnew⟩ | ⟨f₀, f₁, hf₀, hadv, hnew⟩ | ⟨-, -, hgone⟩
  · exact hs.unwritten_le g b epoch values unwritten (hsame ▸ hf)
  · rw [hnew] at hf
    cases hf
  · rw [hnew] at hf
    cases hf
    cases hadv with
    | answered =>
      split
      · rw [List.length_map]
        exact Nat.le_refl _
      · exact Nat.zero_le _
    | written =>
      have := hs.unwritten_le g b epoch values _ hf₀
      rw [List.length_cons] at this
      omega
  · rw [hgone] at hf
    cases hf

/-- A delay begins with a new batch, whose number is that of no delay that has begun before. -/
theorem Sound.timers_nodup_step : s'.timers.Nodup := by
  rcases timers_step h with ⟨l, -, ht⟩ | ⟨g, -, ht⟩ | ⟨-, -, ht⟩
  · rw [ht]
    split
    · exact hs.timers_nodup
    · refine List.nodup_append.2 ⟨hs.timers_nodup, List.nodup_singleton _, ?_⟩
      intro g hg g' hg' he
      have := hs.timers_lt g hg
      rw [List.mem_singleton.1 hg'] at he
      omega
  · rw [ht]
    exact hs.timers_nodup.filter _
  · exact ht ▸ hs.timers_nodup

theorem Sound.timers_lt_step {g : Nat} (hg : g ∈ s'.timers) : g < s'.loader.generation := by
  have before : g ∈ s.timers → g < s'.loader.generation :=
    fun hg => Nat.lt_of_lt_of_le (hs.timers_lt g hg) (generation_step h)
  rcases timers_step h with ⟨l, rfl, ht⟩ | ⟨g', -, ht⟩ | ⟨-, -, ht⟩
  · rw [ht] at hg
    split at hg
    · exact before hg
    · rename_i hp
      rcases List.mem_append.1 hg with hg | hg
      · exact before hg
      · cases step_moves h with | join =>
        rw [List.mem_singleton.1 hg, Loader.generation_join, if_neg hp]
        exact Nat.lt_succ_self _
  · rw [ht] at hg
    exact before (List.mem_filter.1 hg).1
  · exact before (ht ▸ hg)

/-- An open batch keeps its delay: when the delay ends the batch is open no more. -/
theorem Sound.pending_timer_step {b : Batch Nat} (hb : s'.loader.pending = some b) :
    b.generation ∈ s'.timers := by
  rcases pending_step h with ⟨l, k, rfl, -, hp⟩ | ⟨b', -, -, hp⟩ | ⟨hjoin, hp⟩
  · rw [hp] at hb
    split at hb
    · cases hb
    · cases hb
      rcases timers_step h with ⟨l', -, ht⟩ | ⟨g, he, -⟩ | ⟨hno, -⟩
      · rw [ht, Batch.generation_push]
        -- A load that opens the batch brings the delay; otherwise the batch has it already.
        cases hpend : s.loader.pending with
        | none =>
          rw [Loader.generation_current_of_none hpend]
          simp
        | some b' =>
          rw [Loader.current_of_pending hpend]
          exact hs.pending_timer b' hpend
      · cases he
      · exact absurd rfl (hno l)
  · rw [hp] at hb
    cases hb
  · have hold := hp ▸ hb
    have hmem := hs.pending_timer b hold
    rcases timers_step h with ⟨l, he, -⟩ | ⟨g, he, ht⟩ | ⟨-, -, ht⟩
    · exact absurd he (hjoin l)
    · rw [ht]
      refine List.mem_filter.2 ⟨hmem, decide_eq_true ?_⟩
      -- The end of its own delay would have closed the batch.
      rintro rfl
      rw [he] at h
      cases step_moves h with | fire =>
      rw [Loader.elapse_of_pending hold] at hb
      cases hb
    · exact ht ▸ hmem

/-- Whatever happens, a service stays sound. -/
theorem Sound.step : Sound u s' where
  missed_lt := fun _ _ hk => hs.missed_lt_step h hk
  numbered := numbered_step hs.numbered h
  pending_size := fun _ hb => hs.pending_size_step h hb
  flight_size := fun _ _ hf => hs.flight_size_step h hf
  unwritten_le := fun _ _ _ _ _ hf => hs.unwritten_step h hf
  timers_nodup := hs.timers_nodup_step h
  timers_lt := fun _ hg => hs.timers_lt_step h hg
  pending_timer := fun _ hb => hs.pending_timer_step h hb

end

/-! ## What is left of the life of a batch -/

/-- How many steps a flight has before it until it is gone, at most. -/
def Setup.leftAt (u : Setup ρ) : Stage ρ → Nat
  | .closed => u.config.threshold + 3
  | .asked _ => u.config.threshold + 2
  | .answered _ _ unwritten => unwritten.length + 1
  | .failed _ => 1

/-- How many steps a batch has before it until it is gone, at most: it is opened and closed, asks the
store and hears its answer, writes what it knows of each of its keys, and answers. -/
def Setup.left (u : Setup ρ) (s : Service ρ) (g : Nat) : Nat :=
  match s.loader.flight? g with
  | some f => u.leftAt f.stage
  | none =>
    if s.loader.pending.any (·.generation = g) then u.config.threshold + 4
    else if g < s.loader.generation then 0
    else u.config.threshold + 5

theorem left_of_flight {g : Nat} {f : Flight ρ Nat} (h : s.loader.flight? g = some f) :
    u.left s g = u.leftAt f.stage := by
  rw [Setup.left, h]

theorem left_of_pending (hs : Sound u s) {b : Batch Nat} (h : s.loader.pending = some b) :
    u.left s b.generation = u.config.threshold + 4 := by
  rw [Setup.left, hs.numbered.flight?_pending h, h]
  simp

theorem left_of_generation_le (hs : Sound u s) {g : Nat} (h : s.loader.generation ≤ g) :
    u.left s g = u.config.threshold + 5 := by
  have hf : s.loader.flight? g = none := by
    cases hf : s.loader.flight? g with
    | none => rfl
    | some f =>
      obtain ⟨hm, rfl⟩ := Loader.mem_flights_of_flight? hf
      have := hs.numbered.flight_lt f hm
      omega
  have hp : s.loader.pending.any (·.generation = g) = false := by
    cases hp : s.loader.pending with
    | none => rfl
    | some b =>
      have := hs.numbered.pending_lt b hp
      refine decide_eq_false ?_
      omega
  rw [Setup.left, hf]
  simp only [hp, Bool.false_eq_true, if_false]
  rw [if_neg (Nat.not_lt.2 h)]

/-- A batch that is neither open nor on its way, though its number has been given, is gone. -/
theorem left_of_gone {g : Nat} (hf : s.loader.flight? g = none)
    (hp : ∀ b, s.loader.pending = some b → b.generation ≠ g) (hg : g < s.loader.generation) :
    u.left s g = 0 := by
  have hp : s.loader.pending.any (·.generation = g) = false := by
    cases hb : s.loader.pending with
    | none => rfl
    | some b => exact decide_eq_false (hp b hb)
  rw [Setup.left, hf]
  simp only [hp, Bool.false_eq_true, if_false, if_pos hg]

/-- An answer, good or bad, leaves so many steps as the batch has keys, and the reply. -/
theorem Sound.left_of_advances (hs : Sound u s) (hs' : Sound u s') {ev : Event ρ} {g : Nat}
    {f f' : Flight ρ Nat} (hf : s.loader.flight? g = some f) (hf' : s'.loader.flight? g = some f')
    (h : Advances u s ev f f') : u.left s' g < u.left s g := by
  rw [left_of_flight hf, left_of_flight hf']
  cases h with
  | asked => exact Nat.lt_succ_self _
  | answered =>
    have hle := hs'.unwritten_le g _ _ _ _ hf'
    have hsize := (hs.flight_size g _ hf).2
    simp only [Setup.leftAt] at hle hsize ⊢
    omega
  | failed =>
    simp only [Setup.leftAt]
    omega
  | written =>
    simp only [Setup.leftAt, List.length_cons]
    omega

theorem Sound.left_closes (hs : Sound u s) {ev : Event ρ} {b : Batch Nat} (h : Closes u s ev b) :
    u.config.threshold + 4 ≤ u.left s b.generation := by
  cases h with
  | @full l k _ _ =>
    rw [Batch.generation_push]
    cases hp : s.loader.pending with
    | none =>
      rw [Loader.generation_current_of_none hp, left_of_generation_le hs (Nat.le_refl _)]
      omega
    | some b =>
      rw [Loader.current_of_pending hp, left_of_pending hs hp]
  | due hp => rw [left_of_pending hs hp]

/-- A batch that has answered is gone. -/
theorem Sound.left_of_reply (hs : Sound u s) {g : Nat} (h : u.step s (.reply g) = some s') :
    u.left s' g = 0 := by
  obtain ⟨f, hf, -⟩ := flight_of_reply h
  obtain ⟨hm, rfl⟩ := Loader.mem_flights_of_flight? hf
  cases step_moves h with | reply =>
  refine left_of_gone ?_ (fun b hb hg => ?_) (hs.numbered.flight_lt f hm)
  · rw [Loader.flight?_remove, if_pos rfl]
  · exact hs.numbered.pending_ne b hb f hm hg.symm

/-- A batch that is open and had its number before was open before. -/
theorem pending_of_pending {ev : Event ρ} (h : u.step s ev = some s') {b : Batch Nat}
    (hb : s'.loader.pending = some b) (hg : b.generation < s.loader.generation) :
    ∃ b₀, s.loader.pending = some b₀ ∧ b₀.generation = b.generation := by
  rcases pending_step h with ⟨l, k, -, -, hp⟩ | ⟨-, -, -, hp⟩ | ⟨-, hp⟩
  · rw [hp] at hb
    split at hb
    · cases hb
    · cases hb
      cases hpend : s.loader.pending with
      -- A batch that is opened gets the next number.
      | none =>
        rw [Batch.generation_push, Loader.generation_current_of_none hpend] at hg
        exact absurd hg (Nat.lt_irrefl _)
      | some b₀ =>
        refine ⟨b₀, rfl, ?_⟩
        rw [Batch.generation_push, Loader.current_of_pending hpend]
  · rw [hp] at hb
    cases hb
  · exact ⟨b, hp ▸ hb, rfl⟩

/-- A batch that does not leave may be opened, and is closed in no other way than by leaving. -/
theorem Sound.left_step_of_none (hs : Sound u s) {ev : Event ρ} (h : u.step s ev = some s') {g : Nat}
    (hf : s'.loader.flight? g = none) (hsame : s.loader.flight? g = none) :
    u.left s' g ≤ u.left s g := by
  by_cases hg : s.loader.generation ≤ g
  -- A batch whose number has not been given has everything before it.
  · rw [left_of_generation_le hs hg, Setup.left, hf]
    simp only
    split
    · omega
    · split <;> omega
  · -- The number has been given before, so the batch is open, as before, or gone, as before.
    have hlt : g < s'.loader.generation :=
      Nat.lt_of_lt_of_le (Nat.lt_of_not_le hg) (generation_step h)
    by_cases hp : ∃ b, s'.loader.pending = some b ∧ b.generation = g
    · obtain ⟨b, hb, rfl⟩ := hp
      obtain ⟨b₀, hb₀, hg₀⟩ := pending_of_pending h hb (Nat.lt_of_not_le hg)
      rw [left_of_pending (hs.step h) hb, ← hg₀, left_of_pending hs hb₀]
    · have hgone := left_of_gone (u := u) hf (fun b hb hg => hp ⟨b, hb, hg⟩) hlt
      rw [hgone]
      exact Nat.zero_le _

/-- No step leaves a batch with more before it. -/
theorem Sound.left_step (hs : Sound u s) {ev : Event ρ} (h : u.step s ev = some s') (g : Nat) :
    u.left s' g ≤ u.left s g := by
  rcases flight_step hs.numbered h g with
    hsame | ⟨b, hclose, rfl, -, hnew⟩ | ⟨f, f', hf, hadv, hnew⟩ | ⟨rfl, -, -⟩
  · cases hf : s.loader.flight? g with
    | some f =>
      rw [hf] at hsame
      rw [left_of_flight hf, left_of_flight hsame]
    | none => exact hs.left_step_of_none h (hsame.trans hf) hf
  · have := hs.left_closes hclose
    rw [left_of_flight hnew, Setup.leftAt]
    omega
  · exact Nat.le_of_lt (hs.left_of_advances (hs.step h) hf hnew hadv)
  · rw [hs.left_of_reply h]
    exact Nat.zero_le _

end ReadThrough.Service
