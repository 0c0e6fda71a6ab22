import Mathlib.Data.List.Nodup
import ReadThrough.Proofs.Loader.Numbering
/-!
# Who is told what

A flight that has come to its end tells each of those who wait for its batch what the store has said of
their key (`Flight.mem_replies_answered`, `Flight.mem_replies_failed`), and tells nobody twice
(`Flight.nodup_replies_answered`, `Flight.nodup_replies_failed`).
-/

namespace ReadThrough.Flight

variable {ρ τ : Type}

/-- Who is told what when the store has delivered rows and everything is written. -/
theorem mem_replies_answered {b : Batch τ} {epoch : Epoch} {found : Key → Option ρ} {caller : τ}
    {x : Loaded ρ} :
    (caller, x) ∈ ({ batch := b, stage := .answered epoch (b.keys.map fun k => (k, found k)) [] } :
        Flight ρ τ).replies ↔ ∃ k, (k, caller) ∈ b.waiting ∧ x = .ok (found k) := by
  simp only [replies, List.mem_flatMap, List.mem_map, Batch.callers, List.mem_filter]
  constructor
  · rintro ⟨v, ⟨k, -, rfl⟩, caller', ⟨w, ⟨hw, hk⟩, rfl⟩, he⟩
    obtain ⟨rfl, rfl⟩ := Prod.mk.inj he
    have hk : w.1 = k := of_decide_eq_true hk
    exact ⟨k, hk ▸ hw, rfl⟩
  · rintro ⟨k, hw, rfl⟩
    refine ⟨(k, found k), ⟨k, Batch.mem_keys.2 ⟨caller, hw⟩, rfl⟩, caller, ?_, rfl⟩
    exact ⟨(k, caller), ⟨hw, decide_eq_true rfl⟩, rfl⟩

/-- Who is told what when the store has failed. -/
theorem mem_replies_failed {b : Batch τ} {e : StoreError} {caller : τ} {x : Loaded ρ} :
    (caller, x) ∈ ({ batch := b, stage := .failed e } : Flight ρ τ).replies ↔
      ∃ k, (k, caller) ∈ b.waiting ∧ x = .error e := by
  simp only [replies, List.mem_map]
  constructor
  · rintro ⟨w, hw, he⟩
    obtain ⟨rfl, rfl⟩ := Prod.mk.inj he
    exact ⟨w.1, hw, rfl⟩
  · rintro ⟨k, hw, rfl⟩
    exact ⟨(k, caller), hw, rfl⟩

/-! ## Nobody twice -/

/-- Those who wait for different keys are different. -/
theorem nodup_callers {b : Batch τ} (h : (b.waiting.map Prod.snd).Nodup) :
    (b.keys.flatMap b.callers).Nodup := by
  rw [List.nodup_flatMap]
  constructor
  · intro k _
    exact h.sublist (List.filter_sublist.map Prod.snd)
  · refine b.nodup_keys.imp fun {k k'} hne => ?_
    intro caller hc hc'
    obtain ⟨w, hw, rfl⟩ := List.mem_map.1 hc
    obtain ⟨w', hw', he⟩ := List.mem_map.1 hc'
    obtain ⟨hmem, hk⟩ := List.mem_filter.1 hw
    obtain ⟨hmem', hk'⟩ := List.mem_filter.1 hw'
    -- Somebody who waits for two keys would be there twice.
    have hww : w' = w := List.inj_on_of_nodup_map h hmem' hmem he
    have hk : w.1 = k := of_decide_eq_true hk
    have hk' : w'.1 = k' := of_decide_eq_true hk'
    exact hne (by rw [← hk, ← hk', hww])

theorem nodup_replies_answered {b : Batch τ} {epoch : Epoch} {found : Key → Option ρ}
    (h : (b.waiting.map Prod.snd).Nodup) :
    (({ batch := b, stage := .answered epoch (b.keys.map fun k => (k, found k)) [] } :
        Flight ρ τ).replies.map Prod.fst).Nodup := by
  have heq : ({ batch := b, stage := .answered epoch (b.keys.map fun k => (k, found k)) [] } :
      Flight ρ τ).replies.map Prod.fst = b.keys.flatMap b.callers := by
    simp only [replies, List.map_flatMap, List.flatMap_map, List.map_map, Function.comp_def,
      List.map_id']
  rw [heq]
  exact nodup_callers h

theorem nodup_replies_failed {b : Batch τ} {e : StoreError} (h : (b.waiting.map Prod.snd).Nodup) :
    (({ batch := b, stage := .failed e } : Flight ρ τ).replies.map Prod.fst).Nodup := by
  simp only [replies, List.map_map]
  exact h

/-- Of replies that tell nobody twice, those to one caller are one. -/
theorem filter_replies [DecidableEq τ] {l : List (τ × Loaded ρ)} {caller : τ} {x : Loaded ρ}
    (hn : (l.map Prod.fst).Nodup) (h : (caller, x) ∈ l) :
    l.filter (·.1 = caller) = [(caller, x)] := by
  induction l with
  | nil => cases h
  | cons p l ih =>
    obtain ⟨hp, hl⟩ := List.nodup_cons.1 hn
    rcases List.mem_cons.1 h with rfl | h
    · have hnone : l.filter (·.1 = caller) = [] := by
        refine List.filter_eq_nil_iff.2 fun q hq he => hp ?_
        exact List.mem_map.2 ⟨q, hq, of_decide_eq_true he⟩
      rw [List.filter_cons_of_pos (by simp), hnone]
    · have hne : ¬ p.1 = caller := by
        rintro rfl
        exact hp (List.mem_map.2 ⟨_, h, rfl⟩)
      rw [List.filter_cons_of_neg (by simpa using hne), ih hl h]

end ReadThrough.Flight

namespace ReadThrough.Loader

variable {ρ τ : Type} {l : Loader ρ τ} {g : Nat}

/-- A flight that ends without an answer of the store ends as one that hears that it has been broken off. -/
theorem abandon_eq {b : Batch τ} {epoch : Epoch}
    (h : l.flight? g = some { batch := b, stage := .asked epoch }) (key : ρ → Key) (enabled : Bool) :
    l.abandon g = (l.settle g key enabled (.error .aborted)).reply g := by
  have hbatch : ∀ f : Flight ρ τ, (f.settle key enabled (.error .aborted)).batch = f.batch :=
    fun f => Flight.batch_settle f _ _ _
  have hsettled : (l.settle g key enabled (.error .aborted)).flight? g =
      some { batch := b, stage := .failed .aborted } := by
    rw [settle, flight?_modify hbatch, if_pos rfl, h]
    rfl
  rw [abandon, h, reply, hsettled, settle, remove_modify hbatch]
  rfl

end ReadThrough.Loader
