import ReadThrough.Proofs.Service.Joining
/-!
# Writes that come too late

What a service writes to the cache it writes under an epoch that it has noted before: a batch when the store
was asked for its keys, a page when it began. An invalidation of the segment since then has overtaken the
write, whoever made it, and the write leaves the cache as it is (`Run.cache_of_overtaken`).
-/

namespace ReadThrough.Service

variable {ρ : Type} {u : Setup ρ}

/-- Whether a page begins, so that a number is taken. -/
def Event.notes : Event ρ → Bool
  | .note => true
  | _ => false

theorem pageCount_step {s s' : Service ρ} {ev : Event ρ} (h : u.step s ev = some s') :
    s'.pageCount = s.pageCount + if ev.notes then 1 else 0 := by
  cases step_moves h with
  | note => rfl
  | begin | join | drop | sleep | fire | ask | settle | write | reply | read | prime | close | touch
  | pass => rfl

namespace Run

variable {R : Run u}

theorem pageCount_mono {n m : Nat} (h : n ≤ m) : (R.state n).pageCount ≤ (R.state m).pageCount :=
  R.mono (f := Service.pageCount) (fun _ _ _ hs => by rw [pageCount_step hs]; omega) h

/-- No two pages have one number. -/
theorem note_unique {t t' : Nat} (h : R.event t = .note) (h' : R.event t' = .note)
    (hp : (R.state t).pageCount = (R.state t').pageCount) : t = t' := by
  have later : ∀ {n m}, R.event n = .note → n < m → (R.state n).pageCount < (R.state m).pageCount := by
    intro n m hn hnm
    have hstep := pageCount_step (R.next n)
    rw [hn] at hstep
    exact Nat.lt_of_lt_of_le (hstep ▸ Nat.lt_succ_self _) (pageCount_mono hnm)
  rcases Nat.lt_trichotomy t t' with hlt | rfl | hlt
  · have := later h hlt
    omega
  · rfl
  · have := later h' hlt
    omega

/-- The epoch under which a write is made. -/
theorem Uses.epoch_eq {t n : Nat} (h : R.Uses t n) :
    (∃ g b values k row unwritten, R.event n = .write g ∧ (R.state n).loader.flight? g =
        some { batch := b, stage := .answered (R.epoch t) values ((k, row) :: unwritten) }) ∨
      ∃ p row rows, R.event n = .prime p ∧
        (R.state n).pages.find? p = some { epoch := R.epoch t, rows := some (row :: rows) } := by
  cases h with
  | batch g asked used =>
    obtain ⟨b, epoch, values, k, row, unwritten, hf⟩ := flight_of_write (used ▸ R.next n)
    obtain ⟨-, rfl⟩ := Loader.mem_flights_of_flight? hf
    obtain ⟨t', -, -, -, -, hask, rfl, -⟩ := R.flight_source hf
    obtain rfl := ask_unique asked hask
    exact .inl ⟨_, b, values, k, row, unwritten, used, hf⟩
  | page p noted number used =>
    have hstep := R.next n
    rw [used] at hstep
    generalize R.state (n + 1) = s' at hstep
    cases step_moves hstep with | @prime _ epoch row rows hp =>
    obtain ⟨t', -, hnote, hcount, rfl, -⟩ := R.page_source hp
    obtain rfl := note_unique noted hnote (number.trans hcount.symm)
    exact .inr ⟨p, row, rows, used, hp⟩

/-- An invalidation moves the epoch for as long as an epoch is of use. -/
theorem epoch_ne_of_invalidated (hP : R.Prompt) {t i n : Nat} (huse : R.Uses t n) (hti : t ≤ i)
    (hin : i < n) {op : Cache.Op (Held ρ)} (hop : R.history.op i = some op)
    (hinv : op.invalidates u.entity.segment = true) : R.epoch n ≠ R.epoch t := by
  intro hepoch
  have htn : t ≤ n := by omega
  have hcalm := R.history.calm_of_epoch_eq _ htn (hP t n htn huse) hepoch
  rw [hcalm i hti hin op hop] at hinv
  cases hinv

/-- What an invalidation has overtaken is not written. -/
theorem cache_of_overtaken (hP : R.Prompt) {t i n : Nat} (huse : R.Uses t n) (hti : t ≤ i) (hin : i < n)
    {op : Cache.Op (Held ρ)} (hop : R.history.op i = some op)
    (hinv : op.invalidates u.entity.segment = true) : (R.state (n + 1)).cache = (R.state n).cache := by
  have hstale : (R.state n).cache.isCurrent u.entity.segment (R.epoch t) = false :=
    decide_eq_false (epoch_ne_of_invalidated hP huse hti hin hop hinv)
  have hkeep : ∀ k row,
      ((R.state n).cache.keepIfCurrent (R.state n).clock u.entity k row (R.epoch t)).2 =
        (R.state n).cache := by
    intro k row
    simp [RowCache.keepIfCurrent, Cache.setIfCurrent, hstale]
  have hstep := R.next n
  rcases huse.epoch_eq with ⟨g, b, values, k, row, unwritten, he, hf⟩ | ⟨p, row, rows, he, hp⟩
  · rw [he] at hstep
    generalize R.state (n + 1) = s' at hstep ⊢
    cases step_moves hstep with | write hf' =>
    rw [hf] at hf'
    cases hf'
    exact hkeep _ _
  · rw [he] at hstep
    generalize R.state (n + 1) = s' at hstep ⊢
    cases step_moves hstep with | prime hp' =>
    rw [hp] at hp'
    cases hp'
    show (if _ then _ else _) = _
    split
    · exact hkeep _ _
    · rfl

end Run

end ReadThrough.Service
