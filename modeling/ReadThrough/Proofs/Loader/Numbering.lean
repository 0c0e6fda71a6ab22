import ReadThrough.Loader.Basic
/-!
# The numbers of batches

A batch is pending or on its way, and it has a number that no other batch has: `Loader.Numbered`. Every
operation of a loader is described here by what it does to the pending batch, the next number and the
flights, and keeps the numbers apart. So there is one batch of a number at most (`batch?`), open or on
its way.
-/

namespace ReadThrough

/-! ## Batches that grow -/

namespace Batch

variable {τ : Type} (b : Batch τ) (k : Key) (caller : τ)

@[simp] theorem generation_push : (b.push k caller).generation = b.generation := rfl

@[simp] theorem waiting_push : (b.push k caller).waiting = b.waiting ++ [(k, caller)] := rfl

/-- One more load is one more key at most. -/
theorem size_push_le : (b.push k caller).size ≤ b.size + 1 := by
  rw [size, keys_push, addOnce, size]
  split
  · exact Nat.le_succ _
  · exact Nat.le_of_eq (List.length_append.trans rfl)

/-- A batch that somebody has joined has a key. -/
theorem size_push_pos : 0 < (b.push k caller).size := by
  rw [size, List.length_pos_iff]
  intro h
  have hk : k ∈ (b.push k caller).keys := by
    rw [keys_push]
    exact mem_addOnce.2 (.inr rfl)
  rw [h] at hk
  cases hk

end Batch

/-! ## Flights -/

namespace Flight

variable {ρ τ : Type}

/-- The number of a flight is that of its batch. -/
def generation (f : Flight ρ τ) : Nat := f.batch.generation

/-- Whether a flight has come to its end, so that its callers can be answered. -/
def ended (f : Flight ρ τ) : Bool :=
  match f.stage with
  | .answered _ _ [] | .failed _ => true
  | _ => false

/-- What the callers of a key hear of an answer of the store: its fault, or the row or that there is
none. -/
def result (key : ρ → Key) (answer : Except StoreError (List ρ)) (k : Key) : Loaded ρ :=
  answer.map fun rows => found? key rows k

theorem batch_settle (f : Flight ρ τ) (key : ρ → Key) (enabled : Bool)
    (answer : Except StoreError (List ρ)) : (f.settle key enabled answer).batch = f.batch := by
  unfold settle
  split <;> rfl

end Flight

namespace Loader

variable {ρ τ : Type}

/-- Every batch has a number of its own, below that of the next batch. -/
structure Numbered (l : Loader ρ τ) : Prop where
  flight_lt : ∀ f ∈ l.flights, f.generation < l.generation
  flight_nodup : (l.flights.map Flight.generation).Nodup
  pending_lt : ∀ b, l.pending = some b → b.generation < l.generation
  pending_ne : ∀ b, l.pending = some b → ∀ f ∈ l.flights, f.generation ≠ b.generation

theorem numbered_empty : Numbered ({} : Loader ρ τ) where
  flight_lt := fun _ hf => absurd hf List.not_mem_nil
  flight_nodup := List.nodup_nil
  pending_lt := fun _ hb => by cases hb
  pending_ne := fun _ hb => by cases hb

variable {l : Loader ρ τ} {g : Nat}

theorem mem_flights_of_flight? {f : Flight ρ τ} (h : l.flight? g = some f) :
    f ∈ l.flights ∧ f.generation = g := by
  refine ⟨List.mem_of_find?_eq_some h, ?_⟩
  have := List.find?_some h
  exact of_decide_eq_true this

/-! ## Joining -/

section join

variable (l) (threshold : Nat) (k : Key) (caller : τ)

theorem pending_join :
    (l.join threshold k caller).2.pending =
      if threshold ≤ (l.current.push k caller).size then none else some (l.current.push k caller) := by
  unfold join
  dsimp only
  split <;> rfl

theorem generation_join :
    (l.join threshold k caller).2.generation =
      if l.pending.isSome then l.generation else l.generation + 1 := by
  unfold join
  dsimp only
  split <;> rfl

theorem flights_join :
    (l.join threshold k caller).2.flights =
      if threshold ≤ (l.current.push k caller).size then
        l.flights ++ [{ batch := l.current.push k caller }]
      else l.flights := by
  unfold join
  dsimp only
  split <;> rfl

/-- A delay begins exactly with a new batch. -/
theorem opened_join : (l.join threshold k caller).1.opened = !l.pending.isSome := by
  unfold join
  dsimp only
  split <;> cases l.pending <;> rfl

end join

theorem current_of_pending {b : Batch τ} (h : l.pending = some b) : l.current = b := by
  rw [current, h]
  rfl

theorem generation_current_of_none (h : l.pending = none) :
    l.current.generation = l.generation := by
  rw [current, h]
  rfl

/-- The number of the batch that is joined is below the next number afterwards. -/
theorem Numbered.current_lt (hl : l.Numbered) (threshold : Nat) (k : Key) (caller : τ) :
    l.current.generation < (l.join threshold k caller).2.generation := by
  rw [generation_join]
  cases hp : l.pending with
  | none =>
    rw [generation_current_of_none hp]
    exact Nat.lt_succ_self _
  | some b =>
    rw [current_of_pending hp]
    exact hl.pending_lt b hp

/-- A flight that is gone is gone, whatever it has done before. -/
theorem remove_modify {F : Flight ρ τ → Flight ρ τ} (hF : ∀ f, (F f).batch = f.batch) :
    (l.modify g F).remove g = l.remove g := by
  have hp : ((fun f : Flight ρ τ => decide (f.batch.generation ≠ g)) ∘
      fun f => if f.batch.generation = g then F f else f) = fun f => decide (f.batch.generation ≠ g) := by
    funext f
    show decide ((if f.batch.generation = g then F f else f).batch.generation ≠ g) = _
    split
    · rw [hF]
    · rfl
  have hsame : ∀ f ∈ l.flights.filter (·.batch.generation ≠ g),
      (if f.batch.generation = g then F f else f) = f :=
    fun f hf => if_neg (of_decide_eq_true (List.mem_filter.1 hf).2)
  rw [remove, Loader.modify, List.filter_map, hp, List.map_congr_left hsame, List.map_id']
  rfl

/-- No flight has the number of the batch that is joined. -/
theorem Numbered.current_ne (hl : l.Numbered) {f : Flight ρ τ} (hf : f ∈ l.flights) :
    f.generation ≠ l.current.generation := by
  cases hp : l.pending with
  | none =>
    rw [generation_current_of_none hp]
    exact Nat.ne_of_lt (hl.flight_lt f hf)
  | some b =>
    rw [current_of_pending hp]
    exact hl.pending_ne b hp f hf

theorem generation_le_join (l : Loader ρ τ) (threshold : Nat) (k : Key) (caller : τ) :
    l.generation ≤ (l.join threshold k caller).2.generation := by
  rw [generation_join]
  split
  · exact Nat.le_refl _
  · exact Nat.le_succ _

/-- A flight with a number of its own may be added. -/
theorem Numbered.nodup_append (hl : l.Numbered) {b : Batch τ}
    (hb : ∀ f ∈ l.flights, f.generation ≠ b.generation) :
    ((l.flights ++ [({ batch := b } : Flight ρ τ)]).map Flight.generation).Nodup := by
  rw [List.map_append, List.nodup_append]
  refine ⟨hl.flight_nodup, List.pairwise_singleton _ _, fun g hg g' hg' => ?_⟩
  obtain ⟨f, hf, rfl⟩ := List.mem_map.1 hg
  rw [List.mem_singleton.1 hg']
  exact hb f hf

theorem Numbered.join (hl : l.Numbered) (threshold : Nat) (k : Key) (caller : τ) :
    (l.join threshold k caller).2.Numbered := by
  have hlt := hl.current_lt threshold k caller
  have hle := generation_le_join l threshold k caller
  by_cases hfull : threshold ≤ (l.current.push k caller).size
  -- The batch is full and becomes the last of the flights.
  · have hp : (l.join threshold k caller).2.pending = none := by rw [pending_join, if_pos hfull]
    have hmem : ∀ f ∈ (l.join threshold k caller).2.flights,
        f ∈ l.flights ∨ f = { batch := l.current.push k caller } := by
      intro f hf
      rw [flights_join, if_pos hfull, List.mem_append, List.mem_singleton] at hf
      exact hf
    refine ⟨fun f hf => ?_, ?_, fun b hb => ?_, fun b hb => ?_⟩
    · rcases hmem f hf with hf | rfl
      · exact Nat.lt_of_lt_of_le (hl.flight_lt f hf) hle
      · exact hlt
    · rw [flights_join, if_pos hfull]
      exact hl.nodup_append fun f hf => hl.current_ne hf
    · rw [hp] at hb
      cases hb
    · rw [hp] at hb
      cases hb
  -- The batch stays open.
  · have hp : (l.join threshold k caller).2.pending = some (l.current.push k caller) := by
      rw [pending_join, if_neg hfull]
    have hfl : (l.join threshold k caller).2.flights = l.flights := by
      rw [flights_join, if_neg hfull]
    refine ⟨fun f hf => ?_, ?_, fun b hb => ?_, fun b hb f hf => ?_⟩
    · rw [hfl] at hf
      exact Nat.lt_of_lt_of_le (hl.flight_lt f hf) hle
    · rw [hfl]
      exact hl.flight_nodup
    · rw [hp] at hb
      cases hb
      exact hlt
    · rw [hp] at hb
      rw [hfl] at hf
      cases hb
      exact hl.current_ne hf

/-! ## Closing -/

/-- The delay of the pending batch closes it. -/
theorem elapse_of_pending {b : Batch τ} (h : l.pending = some b) :
    l.elapse b.generation =
      (true, { l with pending := none, flights := l.flights ++ [{ batch := b }] }) := by
  simp [elapse, h]

/-- Any other delay does nothing. -/
theorem elapse_of_ne (h : ∀ b, l.pending = some b → b.generation ≠ g) :
    l.elapse g = (false, l) := by
  unfold elapse
  cases hp : l.pending with
  | none => rfl
  | some b => simp [h b hp]

theorem generation_elapse (l : Loader ρ τ) (g : Nat) : (l.elapse g).2.generation = l.generation := by
  by_cases h : ∃ b, l.pending = some b ∧ b.generation = g
  · obtain ⟨b, hb, rfl⟩ := h
    rw [elapse_of_pending hb]
  · rw [elapse_of_ne fun b hb hg => h ⟨b, hb, hg⟩]

theorem Numbered.elapse (hl : l.Numbered) (g : Nat) : (l.elapse g).2.Numbered := by
  by_cases h : ∃ b, l.pending = some b ∧ b.generation = g
  · obtain ⟨b, hb, rfl⟩ := h
    rw [elapse_of_pending hb]
    have hmem : ∀ f ∈ l.flights ++ [{ batch := b }], f ∈ l.flights ∨ f = { batch := b } := by
      intro f hf
      rw [List.mem_append, List.mem_singleton] at hf
      exact hf
    refine ⟨fun f hf => ?_, hl.nodup_append (hl.pending_ne b hb), fun _ hn => ?_, fun _ hn => ?_⟩
    · rcases hmem f hf with hf | rfl
      · exact hl.flight_lt f hf
      · exact hl.pending_lt b hb
    · cases hn
    · cases hn
  · rw [elapse_of_ne fun b hb hg => h ⟨b, hb, hg⟩]
    exact hl

/-! ## Going on and ending -/

theorem mem_flights_modify {F : Flight ρ τ → Flight ρ τ} {f' : Flight ρ τ} :
    f' ∈ (l.modify g F).flights ↔
      ∃ f ∈ l.flights, (if f.generation = g then F f else f) = f' := by
  rw [modify, List.mem_map]
  exact Iff.rfl

theorem Numbered.modify (hl : l.Numbered) (g : Nat) {F : Flight ρ τ → Flight ρ τ}
    (hF : ∀ f, (F f).batch = f.batch) : (l.modify g F).Numbered := by
  have hgen : ∀ f : Flight ρ τ, (if f.generation = g then F f else f).generation = f.generation := by
    intro f
    split
    · rw [Flight.generation, hF, Flight.generation]
    · rfl
  refine ⟨fun f' hf' => ?_, ?_, hl.pending_lt, fun b hb f' hf' => ?_⟩
  · obtain ⟨f, hf, rfl⟩ := mem_flights_modify.1 hf'
    rw [hgen]
    exact hl.flight_lt f hf
  · have hsame : (l.modify g F).flights.map Flight.generation = l.flights.map Flight.generation := by
      rw [Loader.modify, List.map_map]
      exact List.map_congr_left fun f _ => hgen f
    rw [hsame]
    exact hl.flight_nodup
  · obtain ⟨f, hf, rfl⟩ := mem_flights_modify.1 hf'
    rw [hgen]
    exact hl.pending_ne b hb f hf

theorem mem_flights_remove {f : Flight ρ τ} :
    f ∈ (l.remove g).flights ↔ f ∈ l.flights ∧ f.generation ≠ g := by
  simp only [remove, List.mem_filter, Flight.generation, decide_eq_true_eq]

theorem Numbered.remove (hl : l.Numbered) (g : Nat) : (l.remove g).Numbered where
  flight_lt f hf := hl.flight_lt f (mem_flights_remove.1 hf).1
  flight_nodup := hl.flight_nodup.sublist (List.filter_sublist.map Flight.generation)
  pending_lt := hl.pending_lt
  pending_ne b hb f hf := hl.pending_ne b hb f (mem_flights_remove.1 hf).1

/-! ## Flights and batches by their numbers -/

theorem flight?_modify {F : Flight ρ τ → Flight ρ τ} (hF : ∀ f, (F f).batch = f.batch) (g' : Nat) :
    (l.modify g F).flight? g' = if g' = g then (l.flight? g).map F else l.flight? g' := by
  -- The numbers stay, so that the same flight is found as before.
  have hp : (fun f : Flight ρ τ => decide (f.batch.generation = g')) ∘
      (fun f => if f.batch.generation = g then F f else f) =
      fun f => decide (f.batch.generation = g') := by
    funext f
    show decide ((if f.batch.generation = g then F f else f).batch.generation = g') = _
    split
    · rw [hF]
    · rfl
  simp only [flight?, modify, List.find?_map, hp]
  cases h : l.flights.find? (fun f => decide (f.batch.generation = g')) with
  | none =>
    split
    · rename_i hg
      rw [← hg, h]
      rfl
    · rfl
  | some f =>
    have hf : f.batch.generation = g' := by
      have := List.find?_some h
      exact of_decide_eq_true this
    rw [Option.map_some, hf]
    split
    · rename_i hg
      rw [← hg, h]
      rfl
    · rfl

theorem flight?_remove (g' : Nat) :
    (l.remove g).flight? g' = if g' = g then none else l.flight? g' := by
  simp only [flight?, remove, List.find?_filter]
  split
  · rename_i hg
    refine List.find?_eq_none.2 fun f _ => ?_
    simp [hg]
  · rename_i hg
    congr 1
    funext f
    by_cases h : f.batch.generation = g'
    · simp [h, hg]
    · simp [h]

/-- No flight has the number of the batch that is joined. -/
theorem Numbered.flight?_current (hl : l.Numbered) : l.flight? l.current.generation = none := by
  refine List.find?_eq_none.2 fun f hf => ?_
  have := hl.current_ne hf
  exact fun h => this (of_decide_eq_true h)

theorem Numbered.flight?_pending (hl : l.Numbered) {b : Batch τ} (h : l.pending = some b) :
    l.flight? b.generation = none := by
  rw [← current_of_pending h]
  exact hl.flight?_current

/-- A batch that is closed at the end of the flights is found under its number. -/
theorem flight?_close {m : Loader ρ τ} {b : Batch τ} (h : m.flights = l.flights ++ [{ batch := b }])
    (hb : l.flight? b.generation = none) (g : Nat) :
    m.flight? g = if g = b.generation then some { batch := b } else l.flight? g := by
  have happ : m.flight? g = (l.flight? g).or
      (List.find? (fun f => decide (f.batch.generation = g)) [({ batch := b } : Flight ρ τ)]) := by
    rw [flight?, h, List.find?_append]
    rfl
  rw [happ]
  split
  · rename_i hg
    rw [hg, hb]
    simp
  · rename_i hg
    have : ¬ b.generation = g := fun e => hg e.symm
    simp [this]

/-- The batch of a number, open or on its way. -/
def batch? (l : Loader ρ τ) (g : Nat) : Option (Batch τ) :=
  (l.pending.filter (·.generation = g)).or ((l.flight? g).map (·.batch))

theorem batch?_of_pending {b : Batch τ} (h : l.pending = some b) :
    l.batch? b.generation = some b := by
  simp [batch?, h]

theorem batch?_of_flight? (hl : l.Numbered) {f : Flight ρ τ} (h : l.flight? g = some f) :
    l.batch? g = some f.batch := by
  obtain ⟨hf, rfl⟩ := mem_flights_of_flight? h
  have hp : l.pending.filter (·.generation = f.generation) = none := by
    cases hb : l.pending with
    | none => rfl
    | some b =>
      have := hl.pending_ne b hb f hf
      simp [Option.filter, Ne.symm this]
  rw [batch?, hp, h]
  rfl

theorem batch?_eq_some {b : Batch τ} (h : l.batch? g = some b) :
    b.generation = g ∧ (l.pending = some b ∨ ∃ f, l.flight? g = some f ∧ f.batch = b) := by
  rw [batch?, Option.or_eq_some_iff] at h
  rcases h with h | ⟨-, h⟩
  · rw [Option.filter_eq_some_iff] at h
    exact ⟨of_decide_eq_true h.2, .inl h.1⟩
  · obtain ⟨f, hf, rfl⟩ := Option.map_eq_some_iff.1 h
    exact ⟨(mem_flights_of_flight? hf).2, .inr ⟨f, hf, rfl⟩⟩

/-- The batch that a load joins is there afterwards, open or closed, and the others are as they were. -/
theorem Numbered.batch?_join (hl : l.Numbered) (threshold : Nat) (k : Key) (caller : τ) (g : Nat) :
    (l.join threshold k caller).2.batch? g =
      if g = l.current.generation then some (l.current.push k caller) else l.batch? g := by
  have hp := pending_join l threshold k caller
  have hf := flights_join l threshold k caller
  -- Only the batch that is joined may have been open.
  have hcur : (l.pending.filter (·.generation = g)).isSome → g = l.current.generation := by
    intro h
    cases hb : l.pending with
    | none => simp [hb] at h
    | some b =>
      rw [current_of_pending hb]
      rw [hb, Option.filter_some] at h
      split at h
      · rename_i hg
        exact (of_decide_eq_true hg).symm
      · cases h
  by_cases hfull : threshold ≤ (l.current.push k caller).size
  · rw [if_pos hfull] at hp hf
    have := flight?_close (b := l.current.push k caller) hf hl.flight?_current g
    rw [batch?, hp, this]
    by_cases hg : g = l.current.generation
    · simp [hg]
    · have hno : l.pending.filter (·.generation = g) = none :=
        Option.not_isSome_iff_eq_none.1 fun h => hg (hcur h)
      simp [hg, batch?, hno]
  · rw [if_neg hfull] at hp hf
    by_cases hg : g = l.current.generation
    · rw [if_pos hg, hg]
      exact batch?_of_pending (b := l.current.push k caller) hp
    · have hno : l.pending.filter (·.generation = g) = none :=
        Option.not_isSome_iff_eq_none.1 fun h => hg (hcur h)
      have hne : ¬ (l.current.push k caller).generation = g := fun e => hg e.symm
      rw [if_neg hg, batch?, batch?, hp, hno, flight?, hf, flight?, Option.filter_some,
        if_neg fun h => hne (of_decide_eq_true h)]

theorem Numbered.batch?_elapse (hl : l.Numbered) (g g' : Nat) :
    (l.elapse g).2.batch? g' = l.batch? g' := by
  by_cases h : ∃ b, l.pending = some b ∧ b.generation = g
  · obtain ⟨b, hb, rfl⟩ := h
    rw [elapse_of_pending hb]
    have hfl := flight?_close (m := { l with pending := none, flights := l.flights ++ [{ batch := b }] })
      (b := b) rfl (hl.flight?_pending hb) g'
    rw [batch?, hfl]
    by_cases hg : g' = b.generation
    · rw [if_pos hg, hg, batch?_of_pending hb]
      rfl
    · have hne : ¬ b.generation = g' := fun e => hg e.symm
      simp [hg, batch?, hb, Option.filter, hne]
  · rw [elapse_of_ne fun b hb hg => h ⟨b, hb, hg⟩]

theorem batch?_modify {F : Flight ρ τ → Flight ρ τ} (hF : ∀ f, (F f).batch = f.batch) (g' : Nat) :
    (l.modify g F).batch? g' = l.batch? g' := by
  rw [batch?, flight?_modify hF, batch?]
  show (l.pending.filter _).or _ = _
  split
  · rename_i hg
    rw [hg, Option.map_map]
    congr 2
    funext f
    exact hF f
  · rfl

theorem Numbered.batch?_remove (hl : l.Numbered) {f : Flight ρ τ} (hf : l.flight? g = some f)
    (g' : Nat) : (l.remove g).batch? g' = if g' = g then none else l.batch? g' := by
  rw [batch?, flight?_remove, batch?]
  show (l.pending.filter _).or _ = _
  split
  · rename_i hg
    have hno : l.pending.filter (·.generation = g') = none := by
      cases hb : l.pending with
      | none => rfl
      | some b =>
        obtain ⟨hm, hgen⟩ := mem_flights_of_flight? hf
        have hne := hl.pending_ne b hb f hm
        have : ¬ b.generation = g' := fun e => hne (by rw [hgen, e, hg])
        simp [Option.filter, this]
    rw [hno]
    rfl
  · rfl

end Loader

end ReadThrough
