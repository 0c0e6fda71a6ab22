import ReadThrough.Proofs.Run
import ReadThrough.Proofs.Service.Step
/-!
# Runs of a service

What happens in a run of a service, step by step: loads begin (`Run.Begins`) and are answered
(`Run.Answers`). What is done to the cache is a history of it (`Run.history`). Every load that is missing
from the cache, or waits in a batch, has begun before (`Run.began_of_missed`, `Run.began_of_waiting`).
-/

namespace ReadThrough.Service

variable {ρ : Type} {u : Setup ρ}

/-- A run of a service that is fresh at first. -/
abbrev Run (u : Setup ρ) := ReadThrough.Run u.step u.fresh

/-- A service can idle. -/
theorem pass_zero (u : Setup ρ) (s : Service ρ) : u.step s (.pass 0) = some s := rfl

namespace Run

variable (R : Run u)

/-- The cache of the service through time. -/
def history : Cache.History (Held ρ) where
  cache n := (R.state n).cache
  clock n := (R.state n).clock
  op n := u.op? (R.state n) (R.event n)
  next n := cache_step (R.next n)

/-- The epoch of the service's rows at a step. -/
def epoch (n : Nat) : Epoch := (R.state n).cache.epoch u.entity.segment

/-- A load begins at a step, under a number. -/
def Begins (n l : Nat) (k : Key) : Prop := R.event n = .begin k ∧ (R.state n).loads = l

/-- The caller of a load is told something at a step. -/
def Answers (n l : Nat) (x : Loaded ρ) : Prop := (l, x) ∈ u.answers (R.state n) (R.event n)

/-! ## Numbers -/

theorem numbered (n : Nat) : (R.state n).loader.Numbered :=
  R.always (p := fun s => s.loader.Numbered) Loader.numbered_empty
    (fun _ _ _ h hs => numbered_step hs h) n

theorem clock_mono {n m : Nat} (h : n ≤ m) : (R.state n).clock ≤ (R.state m).clock :=
  R.mono (f := Service.clock) (fun _ _ _ => clock_step) h

theorem loads_mono {n m : Nat} (h : n ≤ m) : (R.state n).loads ≤ (R.state m).loads :=
  R.mono (f := Service.loads) (fun _ _ _ hs => by rw [loads_step hs]; omega) h

variable {R}

/-- A load has taken its number when it has begun. -/
theorem Begins.lt_loads {n m l : Nat} {k : Key} (h : R.Begins n l k) (hnm : n < m) :
    l < (R.state m).loads := by
  have hstep := loads_step (R.next n)
  have hmono := R.loads_mono (show n + 1 ≤ m from hnm)
  rw [h.1, h.2] at hstep
  simp only [Event.begins, if_true] at hstep
  omega

/-- A caller that has gone away has gone away at a step. -/
theorem drop_of_dropped {n l : Nat} (h : l ∈ (R.state n).dropped) : ∃ i < n, R.event i = .drop l := by
  obtain ⟨i, hi, hbefore, hafter⟩ := R.gained (p := fun s => l ∈ s.dropped) nofun h
  refine ⟨i, hi, ?_⟩
  have hstep := R.next i
  generalize R.state (i + 1) = s' at hstep hafter
  generalize R.event i = ev at hstep ⊢
  cases step_moves hstep with
  | @drop l' =>
    rcases List.mem_cons.1 hafter with rfl | hold
    · rfl
    · exact absurd hold hbefore
  | begin | join | sleep | fire | ask | settle | write | reply | note | read | prime | close | touch
  | pass => exact absurd hafter hbefore

/-- No two loads have one number. -/
theorem Begins.unique {n m l : Nat} {k k' : Key} (h : R.Begins n l k) (h' : R.Begins m l k') :
    n = m ∧ k = k' := by
  have hnm : n = m := by
    by_contra hne
    rcases Nat.lt_or_gt_of_ne hne with hlt | hlt
    · have := h.lt_loads hlt
      have := h'.2
      omega
    · have := h'.lt_loads hlt
      have := h.2
      omega
  subst hnm
  have he := h.1.symm.trans h'.1
  exact ⟨rfl, Event.begin.inj he⟩

/-! ## Loads that have begun -/

variable (R)

/-- A load that has not joined a batch yet has begun, and the cache knew nothing of its key then. -/
theorem began_of_missed {n l : Nat} {k : Key} (h : (R.state n).missed.find? l = some k) :
    ∃ b < n, R.Begins b l k ∧ (u.look (R.state b) k).1 = none := by
  obtain ⟨b, hb, hbefore, hafter⟩ := R.gained (p := fun s => s.missed.find? l = some k) nofun h
  refine ⟨b, hb, ?_⟩
  rcases missed_step (R.next b) l with ⟨k', he, hl, hlook, hnew⟩ | ⟨-, hgone⟩ | ⟨-, hsame⟩
  · rw [hnew] at hafter
    cases hafter
    exact ⟨⟨he, hl.symm⟩, hlook⟩
  · rw [hgone] at hafter
    cases hafter
  · exact absurd (hsame.symm.trans hafter) hbefore

/-- A load that waits in a batch has begun, and the cache knew nothing of its key then. -/
theorem began_of_waiting {n g l : Nat} {k : Key} {batch : Batch Nat}
    (hb : (R.state n).loader.batch? g = some batch) (hw : (k, l) ∈ batch.waiting) :
    ∃ b < n, R.Begins b l k ∧ (u.look (R.state b) k).1 = none := by
  obtain ⟨j, hjn, hbefore, batch, hb, hw⟩ :=
    R.gained (p := fun s => ∃ batch, s.loader.batch? g = some batch ∧ (k, l) ∈ batch.waiting)
      (by rintro ⟨_, hnone, -⟩; cases hnone) ⟨batch, hb, hw⟩
  rcases batch_step (R.numbered j) (R.next j) g with
    ⟨l', k', -, hm, hg, hnew⟩ | ⟨-, -, hgone⟩ | ⟨-, -, hsame⟩
  · rw [hnew] at hb
    cases hb
    rcases List.mem_append.1 hw with hw | hw
    · -- A load that is in the batch before another one joins it has been in it before.
      cases hp : (R.state j).loader.pending with
      | none =>
        rw [Loader.current, hp] at hw
        cases hw
      | some batch =>
        rw [Loader.current_of_pending hp] at hw hg
        exact absurd ⟨batch, hg ▸ Loader.batch?_of_pending hp, hw⟩ hbefore
    · cases List.mem_singleton.1 hw
      obtain ⟨b, hbj, hbegin⟩ := R.began_of_missed hm
      exact ⟨b, Nat.lt_trans hbj hjn, hbegin⟩
  · rw [hgone] at hb
    cases hb
  · exact absurd ⟨batch, hsame.symm.trans hb, hw⟩ hbefore

end Run

end ReadThrough.Service
