import ReadThrough.Proofs.Service.Working
/-!
# Loading while a table stays as it is

Loads begin one after another, and the service works until all of them have been told something (`Loads`).
Whatever the order of its work is, they are told what the table has, and nothing is outstanding afterwards
(`Loads.answers_eq`). It is never stuck: from every state on it can finish all that is outstanding
(`Steady.exists_finish`), and so all loads can be told, however far it has come with them
(`Steady.exists_rest`).
-/

namespace ReadThrough.Service

variable {ρ ω : Type} {u : Setup ρ} {t : Table ρ ω} {s s' : Service ρ}

/-- Loads begin one after another, and the service works until each of them has been told something. -/
structure Loads (u : Setup ρ) (t : Table ρ ω) (s : Service ρ) (keys : List Key)
    (answers : List (Loaded ρ)) (s' : Service ρ) : Prop where
  length_eq : answers.length = keys.length
  stretch : ∃ told, Stretch u t s keys told s' ∧
    ∀ i x, answers[i]? = some x → (s.loads + i, x) ∈ told

theorem nodup_numbered (first : Nat) (keys : List Key) : (numbered first keys).Nodup := by
  have hfst : (numbered first keys).map Prod.fst = List.range' first keys.length := by
    rw [numbered, List.map_map, ← List.zipIdx_map_snd]
    rfl
  refine List.Nodup.of_map Prod.fst ?_
  rw [hfst]
  exact List.nodup_range'

/-! ## What is told -/

section

variable (ht : t.WellKeyed u.entity) (hlimit : u.config.fetchTimeout = none)
include ht hlimit

theorem Loads.answers_eq {keys : List Key} {answers : List (Loaded ρ)}
    (h : Loads u t s keys answers s') (hs : Steady u t s) (hnone : s.outstanding = []) :
    answers = keys.map (fun k => .ok (t.get? k)) ∧ Steady u t s' ∧ s'.outstanding = [] := by
  obtain ⟨told, hstretch, htold⟩ := h.stretch
  obtain ⟨ended, hperm, hmem⟩ := hstretch.tells ht hlimit hs
  rw [hnone, List.nil_append] at hperm
  -- The load of a place is told something, and that is about the key at the place.
  have hplace : ∀ i x, answers[i]? = some x →
      ∃ k, keys[i]? = some k ∧ (s.loads + i, k) ∈ ended ∧ x = .ok (t.get? k) := by
    intro i x hx
    obtain ⟨k, hk, rfl⟩ := (hmem _ _).1 (htold i x hx)
    obtain ⟨i', hi', hkey⟩ := mem_numbered.1 (hperm.mem_iff.2 (List.mem_append_left _ hk))
    obtain rfl : i' = i := by omega
    exact ⟨k, hkey, hk, rfl⟩
  refine ⟨?_, hstretch.steady ht hlimit hs, ?_⟩
  · refine List.ext_getElem? fun i => ?_
    rw [List.getElem?_map]
    cases hx : answers[i]? with
    | none =>
      have hlen := h.length_eq
      rw [List.getElem?_eq_none_iff] at hx
      rw [List.getElem?_eq_none (by omega)]
      rfl
    | some x =>
      obtain ⟨k, hk, -, rfl⟩ := hplace i x hx
      rw [hk]
      rfl
  · -- A load that is still outstanding would have ended as well.
    rw [List.eq_nil_iff_forall_not_mem]
    rintro ⟨l, k⟩ hl
    obtain ⟨i, rfl, hk⟩ := mem_numbered.1 (hperm.mem_iff.2 (List.mem_append_right _ hl))
    have hi : i < answers.length := by
      rw [h.length_eq]
      exact (List.getElem?_eq_some_iff.1 hk).1
    obtain ⟨k', hk', hended, -⟩ := hplace i _ (List.getElem?_eq_getElem hi)
    obtain rfl : k' = k := Option.some.inj (hk'.symm.trans hk)
    have hnodup := hperm.nodup_iff.1 (nodup_numbered s.loads keys)
    exact (List.nodup_append.1 hnodup).2.2 _ hended _ hl rfl

end

/-- A service that has nothing to answer has no batches on their way. -/
theorem Sound.flight?_of_settled (hs : Sound u s) (h : s.outstanding = []) (g : Nat) :
    s.loader.flight? g = none := by
  cases hf : s.loader.flight? g with
  | none => rfl
  | some f =>
    have hpos : 0 < f.batch.keys.length := (hs.flight_size g f hf).1
    obtain ⟨l, hw⟩ := Batch.mem_keys.1 (List.getElem_mem hpos)
    have hwaits : (f.batch.keys[0], l) ∈ s.loader.waiting :=
      List.mem_append_right _ (List.mem_flatMap.2 ⟨f, (Loader.mem_flights_of_flight? hf).1, hw⟩)
    have hout : (l, f.batch.keys[0]) ∈ s.outstanding :=
      List.mem_append_right _ (List.mem_map.2 ⟨_, hwaits, rfl⟩)
    rw [h] at hout
    cases hout

/-- A service that has nothing to answer goes on with another table as soon as its cache agrees with it. -/
theorem Steady.of_settled (hs : Steady u t s) (h : s.outstanding = []) {t' : Table ρ ω}
    {c : RowCache ρ} (hc : RowCache.Agrees u.entity t' c) : Steady u t' { s with cache := c } where
  sound := { hs.sound with }
  cache := hc
  flights := by
    intro g f hf
    have hnone := hs.sound.flight?_of_settled h g
    exact absurd (hf.symm.trans hnone) nofun
  undropped := hs.undropped

/-! ## Everything can be finished -/

theorem Stretch.of_step (ev : Event ρ) (works : u.Works t s ev) (next : u.step s ev = some s') :
    Stretch u t s ((s.begun ev).map Prod.snd) (u.answers s ev) s' := by
  have h := Stretch.step works next .idle
  rw [List.append_nil, List.append_nil] at h
  exact h

/-- The delay of an open batch can begin, if it has not, and end when its time has come. -/
theorem Sound.exists_fire (hs : Sound u s) {b : Batch Nat} (h : s.loader.pending = some b) :
    ∃ s', Stretch u t s [] [] s' ∧ s'.loader.flight? b.generation = some { batch := b } := by
  obtain ⟨⟨g, due⟩, hd, rfl⟩ := List.mem_map.1 (hs.pending_timer b h)
  -- The delay begins, unless it has begun; then it is waited for.
  have hslept : ∃ s₁ due, Stretch u t s [] [] s₁ ∧ s₁.loader = s.loader ∧
      { generation := b.generation, due := some due } ∈ s₁.delays := by
    cases due with
    | some due => exact ⟨s, due, .idle, rfl, hd⟩
    | none =>
      have hsleep : u.step s (.sleep b.generation) = some _ := if_pos hd
      obtain ⟨due, hdue⟩ := delay_of_sleep hsleep
      exact ⟨_, due, .of_step (.sleep _) trivial hsleep, rfl, hdue⟩
  obtain ⟨s₁, due, hstretch, hloader, hdelay⟩ := hslept
  have hpass : Stretch u t s₁ [] [] { s₁ with clock := s₁.clock + due } :=
    .of_step (.pass due) trivial rfl
  have hany : (s₁.delays.any fun d =>
      d.generation = b.generation && d.due.any (· ≤ s₁.clock + due)) = true := by
    refine List.any_eq_true.2 ⟨_, hdelay, ?_⟩
    simp
  have hfire : u.step { s₁ with clock := s₁.clock + due } (.fire b.generation) = some _ := if_pos hany
  refine ⟨_, hstretch.trans (hpass.trans (.of_step (.fire _) trivial hfire)), ?_⟩
  have hpending : s₁.loader.pending = some b := hloader ▸ h
  have hnumbered : s₁.loader.Numbered := hloader ▸ hs.numbered
  show (s₁.loader.elapse b.generation).2.flight? b.generation = _
  rw [Loader.elapse_of_pending hpending, Loader.flight?_close rfl (hnumbered.flight?_pending hpending),
    if_pos rfl]

namespace Steady

variable (ht : t.WellKeyed u.entity) (hlimit : u.config.fetchTimeout = none)
include ht hlimit

/-- A batch can go on until it answers, and somebody hears the answer. -/
theorem exists_told (hs : Steady u t s) {g : Nat} {b : Batch Nat} (h : s.loader.batch? g = some b) :
    ∃ told s', Stretch u t s [] told s' ∧ told ≠ [] := by
  generalize hleft : u.left s g = left
  -- The induction is on what the batch still has before it.
  induction left using Nat.strongRecOn generalizing s b with
  | ind left ih =>
    have later : ∀ s₁ f, Stretch u t s [] [] s₁ → s₁.loader.flight? g = some f →
        u.left s₁ g < u.left s g → ∃ told s', Stretch u t s [] told s' ∧ told ≠ [] := by
      intro s₁ f hstretch hf hless
      have hs₁ := hstretch.steady ht hlimit hs
      have hb := Loader.batch?_of_flight? hs₁.sound.numbered hf
      obtain ⟨told, s', hrest, htold⟩ := ih _ (hleft ▸ hless) hs₁ hb rfl
      exact ⟨told, s', hstretch.trans hrest, htold⟩
    have going : ∀ ev, u.Works t s ev → (u.step s ev).isSome = true → ev.flight? = some g →
        ∃ told s', Stretch u t s [] told s' ∧ told ≠ [] := by
      intro ev hw hpossible hev
      obtain ⟨s₁, hstep⟩ := Option.isSome_iff_exists.1 hpossible
      obtain ⟨f, f', hf, hadv, hf'⟩ := advance_step hstep hev
      have hless := hs.sound.left_of_advances (hs.sound.step hstep) hf hf' hadv
      have hstretch : Stretch u t s ((s.begun ev).map Prod.snd) (u.answers s ev) s₁ := .of_step ev hw hstep
      cases ev with
      | ask | settle | write => exact later s₁ f' hstretch hf' hless
      | _ => cases hev
    obtain ⟨rfl, hp | ⟨⟨b, stage⟩, hf, rfl⟩⟩ := Loader.batch?_eq_some h
    · obtain ⟨s₁, hstretch, hf⟩ := hs.sound.exists_fire (t := t) hp
      refine later s₁ _ hstretch hf ?_
      rw [left_of_flight hf, left_of_pending hs.sound hp]
      exact Nat.lt_succ_self _
    · match stage with
      | .closed => exact going (.ask b.generation) trivial (by simp [Setup.step, hf]) rfl
      | .asked epoch =>
        exact going (.settle b.generation (.ok (t.findByIds b.keys))) (.inl ⟨_, hf, rfl⟩)
          (by simp [Setup.step, hf]) rfl
      | .answered epoch values (v :: unwritten) =>
        exact going (.write b.generation) trivial (by simp [Setup.step, Loader.write?, hf]) rfl
      | .failed e => exact absurd (hs.flights _ _ hf) id
      | .answered epoch values [] =>
        have hreply : u.step s (.reply b.generation) =
            some { s with loader := (s.loader.reply b.generation).2 } := by
          refine if_pos ?_
          rw [hf]
          rfl
        -- Somebody waits for the first key of the batch.
        have hpos : 0 < b.keys.length := (hs.sound.flight_size _ _ hf).1
        obtain ⟨l, hw⟩ := Batch.mem_keys.1 (List.getElem_mem hpos)
        have hended : (l, b.keys[0]) ∈ u.finished s (.reply b.generation) := by
          rw [finished_of_reply hf]
          exact List.mem_map.2 ⟨_, hw, rfl⟩
        have htold := (hs.mem_answers hreply l _).2 ⟨_, hended, rfl⟩
        exact ⟨_, _, .of_step (.reply b.generation) trivial hreply, List.ne_nil_of_mem htold⟩

/-- When somebody is told something, less is outstanding. -/
theorem length_lt_of_told (hs : Steady u t s) {told : List (Nat × Loaded ρ)}
    (h : Stretch u t s [] told s') (htold : told ≠ []) :
    s'.outstanding.length < s.outstanding.length := by
  obtain ⟨ended, hperm, hmem⟩ := h.tells ht hlimit hs
  obtain ⟨⟨l, x⟩, hx⟩ := List.exists_mem_of_ne_nil _ htold
  obtain ⟨k, hk, -⟩ := (hmem l x).1 hx
  have hpos := List.length_pos_of_mem hk
  have hlen := hperm.length_eq
  rw [List.length_append, List.length_append] at hlen
  have hnil : (numbered s.loads []).length = 0 := rfl
  omega

/-- As long as something is outstanding, somebody can be told something. -/
theorem exists_shorter (hs : Steady u t s) (h : s.outstanding ≠ []) :
    ∃ told s', Stretch u t s [] told s' ∧ s'.outstanding.length < s.outstanding.length := by
  cases hm : s.missed.entries with
  -- A load that is missing joins a batch first.
  | cons e entries =>
    obtain ⟨l, k⟩ := e
    have hfind : s.missed.find? l = some k := Dict.find?_of_mem (hm ▸ List.mem_cons_self)
    obtain ⟨s₁, hjoin⟩ : ∃ s₁, u.step s (.join l) = some s₁ := by
      simp only [Setup.step, hfind]
      exact ⟨_, rfl⟩
    have hfirst : Stretch u t s [] [] s₁ := .of_step (.join l) trivial hjoin
    have hs₁ := hfirst.steady ht hlimit hs
    have hbatch : ∃ g b, s₁.loader.batch? g = some b := by
      cases step_moves hjoin with | @join _ k =>
      have hjoined := hs.sound.numbered.batch?_join u.config.threshold k l s.loader.current.generation
      rw [if_pos rfl] at hjoined
      exact ⟨_, _, hjoined⟩
    obtain ⟨g, b, hb⟩ := hbatch
    obtain ⟨told, s', hrest, htold⟩ := hs₁.exists_told ht hlimit hb
    have hall := hfirst.trans hrest
    exact ⟨told, s', hall, length_lt_of_told ht hlimit hs hall htold⟩
  -- Otherwise somebody waits in a batch already.
  | nil =>
    have hw : s.loader.waiting ≠ [] := by
      rintro hw
      rw [outstanding, hm, hw] at h
      exact h rfl
    obtain ⟨g, b, hb⟩ := hs.sound.numbered.exists_batch?_of_waiting hw
    obtain ⟨told, s', hall, htold⟩ := hs.exists_told ht hlimit hb
    exact ⟨told, s', hall, length_lt_of_told ht hlimit hs hall htold⟩

/-- A service can finish all that is outstanding. -/
theorem exists_finish (hs : Steady u t s) :
    ∃ told s', Stretch u t s [] told s' ∧ s'.outstanding = [] := by
  generalize hlen : s.outstanding.length = n
  induction n using Nat.strongRecOn generalizing s with
  | ind n ih =>
    by_cases h : s.outstanding = []
    · exact ⟨[], s, .idle, h⟩
    · obtain ⟨told, s₁, hfirst, hless⟩ := hs.exists_shorter ht hlimit h
      obtain ⟨told', s', hrest, hnone⟩ := ih _ (hlen ▸ hless) (hfirst.steady ht hlimit hs) rfl
      exact ⟨told ++ told', s', hfirst.trans hrest, hnone⟩

omit ht hlimit in
/-- Loads can begin at any time. -/
theorem exists_begun (u : Setup ρ) (t : Table ρ ω) (s : Service ρ) (keys : List Key) :
    ∃ told s', Stretch u t s keys told s' := by
  induction keys generalizing s with
  | nil => exact ⟨[], s, .idle⟩
  | cons k keys ih =>
    obtain ⟨s₁, hstep⟩ : ∃ s₁, u.step s (.begin k) = some s₁ := ⟨_, rfl⟩
    have hfirst : Stretch u t s [k] _ s₁ := .of_step (.begin k) trivial hstep
    obtain ⟨told, s', hrest⟩ := ih s₁
    exact ⟨_, s', hfirst.trans hrest⟩

/-- However far a service has come with loads, it can go on until all of them are told what the table
has. -/
theorem exists_rest (hs : Steady u t s) (hnone : s.outstanding = []) {keys : List Key}
    {told : List (Nat × Loaded ρ)} (h : Stretch u t s keys told s') (keys' : List Key) :
    ∃ told' s'', Stretch u t s' keys' told' s'' ∧
      Loads u t s (keys ++ keys') ((keys ++ keys').map fun k => .ok (t.get? k)) s'' := by
  obtain ⟨told₁, s₁, hbegun⟩ := exists_begun u t s' keys'
  have hs₁ := hbegun.steady ht hlimit (h.steady ht hlimit hs)
  obtain ⟨told₂, s'', hfinish, hdone⟩ := hs₁.exists_finish ht hlimit
  have hrest := hbegun.trans hfinish
  rw [List.append_nil] at hrest
  have hall := h.trans hrest
  obtain ⟨ended, hperm, hmem⟩ := hall.tells ht hlimit hs
  rw [hnone, hdone, List.nil_append, List.append_nil] at hperm
  refine ⟨told₁ ++ told₂, s'', hrest, by simp, told ++ (told₁ ++ told₂), hall, ?_⟩
  intro i x hx
  rw [List.getElem?_map, Option.map_eq_some_iff] at hx
  obtain ⟨k, hk, rfl⟩ := hx
  have hended := hperm.mem_iff.1 (mem_numbered.2 ⟨i, rfl, hk⟩)
  exact (hmem _ _).2 ⟨k, hended, rfl⟩

/-- Loads of any keys can be told what the table has. -/
theorem exists_loads (hs : Steady u t s) (hnone : s.outstanding = []) (keys : List Key) :
    ∃ s', Loads u t s keys (keys.map fun k => .ok (t.get? k)) s' := by
  obtain ⟨_, s', -, hloads⟩ := hs.exists_rest ht hlimit hnone .idle keys
  exact ⟨s', hloads⟩

end Steady

end ReadThrough.Service
