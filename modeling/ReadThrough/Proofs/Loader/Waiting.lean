import ReadThrough.Proofs.Dict
import ReadThrough.Proofs.Loader.Numbering
/-!
# Who waits

The callers that wait for something are those of the open batch and those of the batches on their way
(`Loader.waiting`). A load that joins is one more. Closing a batch, and going on with a flight, leaves all
of them waiting; and when a flight is gone its callers do not wait any more, and nobody else is lost.
-/

namespace ReadThrough.Loader

variable {ρ τ : Type} {l : Loader ρ τ} {g : Nat}

/-- Who waits for which key. -/
def waiting (l : Loader ρ τ) : List (Key × τ) :=
  l.current.waiting ++ l.flights.flatMap fun f => f.batch.waiting

theorem waiting_eq_of_pending {b : Batch τ} (h : l.pending = some b) :
    l.waiting = b.waiting ++ l.flights.flatMap fun f => f.batch.waiting := by
  rw [waiting, current_of_pending h]

theorem waiting_eq_of_none (h : l.pending = none) :
    l.waiting = l.flights.flatMap fun f => f.batch.waiting := by
  rw [waiting, current, h]
  rfl

/-- When a batch is closed, nobody is lost. -/
theorem waiting_close (h : l.pending = none) {flights : List (Flight ρ τ)} {b : Batch τ}
    (hf : l.flights = flights ++ [{ batch := b }]) :
    l.waiting.Perm (b.waiting ++ flights.flatMap fun f => f.batch.waiting) := by
  rw [waiting_eq_of_none h, hf, List.flatMap_append, List.flatMap_singleton]
  exact List.perm_append_comm

theorem waiting_join (l : Loader ρ τ) (threshold : Nat) (k : Key) (caller : τ) :
    (l.join threshold k caller).2.waiting.Perm (l.waiting ++ [(k, caller)]) := by
  have hp := pending_join l threshold k caller
  have hf := flights_join l threshold k caller
  have hgrown : ((l.current.push k caller).waiting ++ l.flights.flatMap fun f => f.batch.waiting).Perm
      (l.waiting ++ [(k, caller)]) := by
    rw [Batch.waiting_push, waiting, List.append_assoc, List.append_assoc]
    exact List.perm_append_comm.append_left _
  by_cases hfull : threshold ≤ (l.current.push k caller).size
  · rw [if_pos hfull] at hp hf
    exact (waiting_close hp hf).trans hgrown
  · rw [if_neg hfull] at hp hf
    rw [waiting_eq_of_pending hp, hf]
    exact hgrown

theorem waiting_elapse (l : Loader ρ τ) (g : Nat) : (l.elapse g).2.waiting.Perm l.waiting := by
  by_cases h : ∃ b, l.pending = some b ∧ b.generation = g
  · obtain ⟨b, hb, rfl⟩ := h
    rw [elapse_of_pending hb, waiting_eq_of_pending hb]
    exact waiting_close rfl rfl
  · rw [elapse_of_ne fun b hb hg => h ⟨b, hb, hg⟩]

theorem waiting_modify {F : Flight ρ τ → Flight ρ τ} (hF : ∀ f, (F f).batch = f.batch) :
    (l.modify g F).waiting = l.waiting := by
  have hsame : ((l.modify g F).flights.flatMap fun f => f.batch.waiting) =
      l.flights.flatMap fun f => f.batch.waiting := by
    rw [modify, List.flatMap_map]
    congr 1
    funext f
    split
    · rw [hF]
    · rfl
  show l.current.waiting ++ _ = _
  rw [hsame]
  rfl

theorem Numbered.waiting_remove (hl : l.Numbered) {f : Flight ρ τ} (h : l.flight? g = some f) :
    l.waiting.Perm (f.batch.waiting ++ (l.remove g).waiting) := by
  obtain ⟨hf, rfl⟩ := mem_flights_of_flight? h
  have hperm : (l.flights.flatMap fun f => f.batch.waiting).Perm
      (f.batch.waiting ++ (l.remove f.generation).flights.flatMap fun f => f.batch.waiting) :=
    (perm_cons_filter Flight.generation hl.flight_nodup hf).flatMap_right _
  -- Those who wait for the flight may stand before those who wait for the open batch.
  exact (hperm.append_left l.current.waiting).trans (List.perm_append_comm_assoc _ _ _)

/-- Whoever waits, waits in a batch. -/
theorem Numbered.exists_batch?_of_waiting (hl : l.Numbered) (h : l.waiting ≠ []) :
    ∃ g b, l.batch? g = some b := by
  cases hp : l.pending with
  | some b => exact ⟨b.generation, b, batch?_of_pending hp⟩
  | none =>
    cases hf : l.flights with
    | nil =>
      rw [waiting_eq_of_none hp, hf] at h
      exact absurd rfl h
    | cons f fs =>
      have hfound : l.flight? f.generation = some f := by
        rw [flight?, hf, List.find?_cons_of_pos (by simp [Flight.generation])]
      exact ⟨f.generation, f.batch, batch?_of_flight? hl hfound⟩

end ReadThrough.Loader
