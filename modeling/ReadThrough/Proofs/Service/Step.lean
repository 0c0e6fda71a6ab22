import ReadThrough.Proofs.Service.Basic
/-!
# What a step of a service does

`Moves` says what a service is after each of the events that are possible. From it follows how each part
of a service may change. The cache changes by the operation that the event stands for (`cache_step`); the
open batch grows by a load or is closed (`pending_step`); a flight begins as a batch that has been closed,
goes on as `Advances` says, and is gone when it has answered (`flight_step`); and a batch, open or on its
way, grows by the loads that join it and changes in no other way (`batch_step`).
-/

namespace ReadThrough.Service

variable {ρ : Type} {u : Setup ρ} {s s' : Service ρ}

/-- The events that are possible, and the service after each. -/
inductive Moves (u : Setup ρ) (s : Service ρ) : Event ρ → Service ρ → Prop where
  | begin {k : Key} :
      Moves u s (.begin k)
        { s with
          cache := (u.look s k).2
          missed := if (u.look s k).1.isSome then s.missed else s.missed.insert s.loads k
          loads := s.loads + 1 }
  | join {l : Nat} {k : Key} (missed : s.missed.find? l = some k) :
      Moves u s (.join l)
        { s with
          loader := (s.loader.join u.config.threshold k l).2
          missed := s.missed.erase l
          delays := s.delays ++
            if s.loader.pending.isSome then [] else [{ generation := s.loader.generation }] }
  | drop {l : Nat} : Moves u s (.drop l) { s with dropped := l :: s.dropped }
  | sleep {g : Nat} (delay : { generation := g } ∈ s.delays) :
      Moves u s (.sleep g)
        { s with delays := s.delays.map fun d =>
            if d = { generation := g } then
              { generation := g, due := some (wakeTime s.clock u.config.batchDelay.toNat) }
            else d }
  | fire {g due : Nat} (delay : { generation := g, due := some due } ∈ s.delays)
      (past : due ≤ s.clock) :
      Moves u s (.fire g)
        { s with
          loader := (s.loader.elapse g).2, delays := s.delays.filter (·.generation ≠ g) }
  | ask {g : Nat} {b : Batch Nat} (flight : s.loader.flight? g = some { batch := b }) :
      Moves u s (.ask g)
        { s with loader := s.loader.modify g fun f =>
            { f with stage := .asked (s.cache.epoch u.entity.segment) } }
  | settle {g : Nat} {b : Batch Nat} {epoch : Epoch} {answer : Except StoreError (List ρ)}
      (flight : s.loader.flight? g = some { batch := b, stage := .asked epoch }) :
      Moves u s (.settle g answer)
        { s with loader := s.loader.modify g fun f =>
            f.settle u.entity.key u.config.enabled answer }
  | write {g : Nat} {b : Batch Nat} {epoch : Epoch} {values unwritten : List (Key × Option ρ)}
      {k : Key} {row : Option ρ}
      (flight : s.loader.flight? g =
        some { batch := b, stage := .answered epoch values ((k, row) :: unwritten) }) :
      Moves u s (.write g)
        { s with
          loader := s.loader.modify g fun f =>
            { f with stage := .answered epoch values unwritten }
          cache := (s.cache.keepIfCurrent s.clock u.entity k row epoch).2 }
  | reply {g : Nat} {f : Flight ρ Nat} (flight : s.loader.flight? g = some f)
      (ended : f.ended = true) :
      Moves u s (.reply g) { s with loader := s.loader.remove g }
  | note :
      Moves u s .note
        { s with
          pages := s.pages.insert s.pageCount { epoch := s.cache.epoch u.entity.segment }
          pageCount := s.pageCount + 1 }
  | read {p : Nat} {epoch : Epoch} {rows : List ρ} (page : s.pages.find? p = some { epoch }) :
      Moves u s (.read p rows) { s with pages := s.pages.insert p { epoch, rows } }
  | prime {p : Nat} {epoch : Epoch} {row : ρ} {rows : List ρ}
      (page : s.pages.find? p = some { epoch, rows := some (row :: rows) }) :
      Moves u s (.prime p)
        { s with
          cache := if u.config.enabled then
              (s.cache.keepIfCurrent s.clock u.entity (u.entity.key row) (some row) epoch).2
            else s.cache
          pages := s.pages.insert p { epoch, rows } }
  | close {p : Nat} : Moves u s (.close p) { s with pages := s.pages.erase p }
  | touch {op : Cache.Op (Held ρ)} (foreign : keeps u.entity op = false) :
      Moves u s (.touch op) { s with cache := op.apply s.clock s.cache }
  | pass {ms : Nat} : Moves u s (.pass ms) { s with clock := s.clock + ms }

theorem step_moves {ev : Event ρ} (h : u.step s ev = some s') : Moves u s ev s' := by
  cases ev with
  | begin k =>
    cases h
    exact .begin
  | join l =>
    simp only [Setup.step, Option.map_eq_some_iff] at h
    obtain ⟨k, hk, rfl⟩ := h
    rw [Loader.opened_join]
    have hmoves := Moves.join (u := u) hk
    -- A delay begins exactly if no batch was open.
    cases hp : s.loader.pending with
    | none =>
      rw [hp] at hmoves
      rw [Loader.generation_current_of_none hp]
      exact hmoves
    | some b =>
      rw [hp] at hmoves
      exact hmoves
  | drop l =>
    simp only [Setup.step] at h
    split at h <;> cases h
    exact .drop
  | sleep g =>
    simp only [Setup.step] at h
    split at h
    · rename_i hd
      cases h
      exact .sleep hd
    · cases h
  | fire g =>
    simp only [Setup.step] at h
    split at h
    · rename_i hd
      cases h
      obtain ⟨⟨g', due⟩, hd, he⟩ := List.any_eq_true.1 hd
      obtain ⟨hg, hdue⟩ := Bool.and_eq_true_iff.1 he
      obtain rfl : g' = g := of_decide_eq_true hg
      cases due with
      | none => cases hdue
      | some due => exact .fire hd (of_decide_eq_true hdue)
    · cases h
  | ask g =>
    simp only [Setup.step] at h
    split at h
    · rename_i b hf
      cases h
      rw [Loader.start, hf]
      exact .ask hf
    · cases h
  | settle g answer =>
    simp only [Setup.step] at h
    split at h
    · rename_i b epoch hf
      cases h
      exact .settle hf
    · cases h
  | write g =>
    simp only [Setup.step, Option.map_eq_some_iff] at h
    obtain ⟨⟨k, row, epoch, loader⟩, hw, rfl⟩ := h
    simp only [Loader.write?] at hw
    split at hw
    · rename_i b epoch values k row unwritten hf
      cases hw
      exact .write hf
    · cases hw
  | reply g =>
    simp only [Setup.step] at h
    split at h
    · rename_i hany
      cases h
      cases hf : s.loader.flight? g with
      | none =>
        rw [hf] at hany
        cases hany
      | some f =>
        rw [hf] at hany
        rw [Loader.reply, hf]
        exact .reply hf hany
    · cases h
  | note =>
    cases h
    exact .note
  | read p rows =>
    simp only [Setup.step] at h
    split at h
    · rename_i epoch hp
      cases h
      exact .read hp
    · cases h
  | prime p =>
    simp only [Setup.step] at h
    split at h
    · rename_i epoch row rows hp
      cases h
      exact .prime hp
    · cases h
  | close p =>
    cases h
    exact .close
  | touch op =>
    simp only [Setup.step] at h
    split at h
    · cases h
    · rename_i hop
      cases h
      exact .touch (Bool.eq_false_of_not_eq_true hop)
  | pass ms =>
    cases h
    exact .pass

/-! ## What an event takes, and what it brings -/

theorem missed_of_join {l : Nat} (h : u.step s (.join l) = some s') :
    ∃ k, s.missed.find? l = some k := by
  cases step_moves h with | join hk =>
  exact ⟨_, hk⟩

theorem missed_of_begin {k : Key} (h : u.step s (.begin k) = some s') (hk : (u.look s k).1 = none) :
    s'.missed.find? s.loads = some k := by
  cases step_moves h with | begin =>
  rw [hk]
  exact (Dict.find?_insert _ _ _ _).trans (if_pos rfl)

theorem delay_of_sleep {g : Nat} (h : u.step s (.sleep g) = some s') :
    ∃ due, { generation := g, due := some due } ∈ s'.delays := by
  cases step_moves h with | sleep hd =>
  exact ⟨_, List.mem_map.2 ⟨_, hd, if_pos rfl⟩⟩

theorem delay_of_fire {g : Nat} (h : u.step s (.fire g) = some s') :
    ∃ due, { generation := g, due := some due } ∈ s.delays ∧ due ≤ s.clock := by
  cases step_moves h with | fire hd hdue =>
  exact ⟨_, hd, hdue⟩

theorem flight_of_ask {g : Nat} (h : u.step s (.ask g) = some s') :
    ∃ b, s.loader.flight? g = some { batch := b } := by
  cases step_moves h with | ask hf =>
  exact ⟨_, hf⟩

theorem flight_of_settle {g : Nat} {answer : Except StoreError (List ρ)}
    (h : u.step s (.settle g answer) = some s') :
    ∃ b epoch, s.loader.flight? g = some { batch := b, stage := .asked epoch } := by
  cases step_moves h with | settle hf =>
  exact ⟨_, _, hf⟩

theorem flight_of_write {g : Nat} (h : u.step s (.write g) = some s') :
    ∃ b epoch values k row unwritten, s.loader.flight? g =
      some { batch := b, stage := .answered epoch values ((k, row) :: unwritten) } := by
  cases step_moves h with | write hf =>
  exact ⟨_, _, _, _, _, _, hf⟩

theorem flight_of_reply {g : Nat} (h : u.step s (.reply g) = some s') :
    ∃ f, s.loader.flight? g = some f ∧ f.ended = true := by
  cases step_moves h with | reply hf hended =>
  exact ⟨_, hf, hended⟩

theorem keeps_of_touch {op : Cache.Op (Held ρ)} (h : u.step s (.touch op) = some s') :
    keeps u.entity op = false := by
  cases step_moves h with | touch hop =>
  exact hop

/-! ## The cache and the clock -/

theorem look_snd (c : RowCache ρ) (now : Nat) (e : Entity ρ) (k : Key) :
    (c.look now e k).2 = (Cache.Op.get e.segment k).apply now c := by
  simp only [RowCache.look, Cache.Op.apply, Cache.get]
  split
  · rfl
  · split <;> rfl

/-- A load that finds something in the cache finds an entry of the service's rows. -/
theorem find?_of_look {k : Key} {v : Option ρ} (h : (u.look s k).1 = some v) :
    ∃ x, s.cache.find? u.entity.segment k = some x ∧ x.value = { kind := u.entity.kind, row := v } := by
  simp only [Setup.look] at h
  split at h
  · simp only [RowCache.look, Cache.get] at h
    split at h
    · cases h
    · rename_i x hx
      split at h
      · cases h
      · simp only [Held.read] at h
        split at h
        · rename_i hk
          cases h
          exact ⟨x, hx, by rw [← hk]⟩
        · cases h
  · cases h

/-- The cache changes by what the event does to it, and by nothing else. -/
theorem cache_step {ev : Event ρ} (h : u.step s ev = some s') :
    s'.cache = (u.op? s ev).elim s.cache fun op => op.apply s.clock s.cache := by
  cases step_moves h with
  | begin =>
    simp only [Setup.op?, Setup.look]
    split
    · exact look_snd _ _ _ _
    · rfl
  | write hf =>
    simp only [Setup.op?, Loader.write?, hf]
    rfl
  | prime hp =>
    simp only [Setup.op?, hp]
    split <;> rfl
  | join | drop | sleep | fire | ask | settle | reply | note | read | close | touch | pass => rfl

/-- A load reads the cache, a row of the service is put into it under an epoch, or somebody else does
something to it. -/
theorem op?_cases {ev : Event ρ} {op : Cache.Op (Held ρ)} (h : u.op? s ev = some op) :
    (∃ k, op = .get u.entity.segment k) ∨
      (∃ k row epoch, op = .setIfCurrent u.entity.segment k { kind := u.entity.kind, row } epoch) ∨
      ev = .touch op := by
  cases ev with
  | begin k =>
    simp only [Setup.op?] at h
    split at h <;> cases h
    exact .inl ⟨k, rfl⟩
  | write g =>
    rw [Setup.op?, Option.map_eq_some_iff] at h
    obtain ⟨⟨k, row, epoch, loader⟩, -, rfl⟩ := h
    exact .inr (.inl ⟨k, row, epoch, rfl⟩)
  | prime p =>
    simp only [Setup.op?] at h
    split at h
    · split at h <;> cases h
      exact .inr (.inl ⟨_, _, _, rfl⟩)
    · cases h
  | touch op' =>
    cases h
    exact .inr (.inr rfl)
  | join | drop | sleep | fire | ask | settle | reply | note | read | close | pass => cases h

theorem clock_step {ev : Event ρ} (h : u.step s ev = some s') : s.clock ≤ s'.clock := by
  cases step_moves h with
  | pass => exact Nat.le_add_right _ _
  | begin | join | drop | sleep | fire | ask | settle | write | reply | note | read | prime | close
  | touch => exact Nat.le_refl _

/-! ## Loads -/

/-- Whether a load begins, so that a number is taken. -/
def Event.begins : Event ρ → Bool
  | .begin _ => true
  | _ => false

theorem loads_step {ev : Event ρ} (h : u.step s ev = some s') :
    s'.loads = s.loads + if ev.begins then 1 else 0 := by
  cases step_moves h with
  | begin => rfl
  | join | drop | sleep | fire | ask | settle | write | reply | note | read | prime | close | touch
  | pass => rfl

/-- A load goes missing from the cache when it begins, and is missing until it joins a batch. -/
theorem missed_step {ev : Event ρ} (h : u.step s ev = some s') (l : Nat) :
    (∃ k, ev = .begin k ∧ l = s.loads ∧ (u.look s k).1 = none ∧ s'.missed.find? l = some k) ∨
      (ev = .join l ∧ s'.missed.find? l = none) ∨
      (ev ≠ .join l ∧ s'.missed.find? l = s.missed.find? l) := by
  cases step_moves h with
  | @begin k =>
    cases hk : (u.look s k).1 with
    | none =>
      by_cases hl : l = s.loads
      · exact .inl ⟨k, rfl, hl, hk, by simp [hl]⟩
      · exact .inr (.inr ⟨by simp, by simp [hl]⟩)
    | some row => exact .inr (.inr ⟨by simp, rfl⟩)
  | @join l' k =>
    by_cases hl : l = l'
    · exact .inr (.inl ⟨hl ▸ rfl, by simp [hl]⟩)
    · exact .inr (.inr ⟨fun e => hl (Event.join.inj e).symm, by simp [hl]⟩)
  | drop | sleep | fire | ask | settle | write | reply | note | read | prime | close | touch
  | pass => exact .inr (.inr ⟨by simp, rfl⟩)

/-! ## Delays -/

/-- The batches whose delays have not ended. -/
def timers (s : Service ρ) : List Nat := s.delays.map (·.generation)

/-- A batch gets its delay when it is opened and loses it when the delay ends. -/
theorem timers_step {ev : Event ρ} (h : u.step s ev = some s') :
    (∃ l, ev = .join l ∧ s'.timers =
        if s.loader.pending.isSome then s.timers else s.timers ++ [s.loader.generation]) ∨
      (∃ g, ev = .fire g ∧ s'.timers = s.timers.filter (· ≠ g)) ∨
      ((∀ l, ev ≠ .join l) ∧ (∀ g, ev ≠ .fire g) ∧ s'.timers = s.timers) := by
  cases step_moves h with
  | @join l k =>
    refine .inl ⟨l, rfl, ?_⟩
    rw [timers, List.map_append]
    cases s.loader.pending with
    | none => rfl
    | some b => exact List.append_nil _
  | @fire g =>
    refine .inr (.inl ⟨g, rfl, ?_⟩)
    rw [timers, timers, List.filter_map]
    rfl
  | sleep =>
    refine .inr (.inr ⟨nofun, nofun, ?_⟩)
    -- A delay that begins goes on to be that of its batch.
    rw [timers, List.map_map, timers]
    refine List.map_congr_left fun d _ => ?_
    simp only [Function.comp_apply]
    split
    · rename_i hd
      rw [hd]
    · rfl
  | begin | drop | ask | settle | write | reply | note | read | prime | close | touch | pass =>
    exact .inr (.inr ⟨nofun, nofun, rfl⟩)

theorem numbered_step {ev : Event ρ} (hs : s.loader.Numbered) (h : u.step s ev = some s') :
    s'.loader.Numbered := by
  cases step_moves h with
  | join => exact hs.join _ _ _
  | fire => exact hs.elapse _
  | ask | write => exact hs.modify _ fun _ => rfl
  | settle => exact hs.modify _ fun f => Flight.batch_settle f _ _ _
  | reply => exact hs.remove _
  | begin | drop | sleep | note | read | prime | close | touch | pass => exact hs

theorem generation_step {ev : Event ρ} (h : u.step s ev = some s') :
    s.loader.generation ≤ s'.loader.generation := by
  cases step_moves h with
  | join => exact Loader.generation_le_join _ _ _ _
  | fire => exact Nat.le_of_eq (Loader.generation_elapse _ _).symm
  | begin | drop | sleep | ask | settle | write | reply | note | read | prime | close | touch
  | pass => exact Nat.le_refl _

/-- Only a load that joins may take the number of a new batch. -/
theorem generation_eq_of_not_join {ev : Event ρ} (h : u.step s ev = some s') (hno : ∀ l, ev ≠ .join l) :
    s'.loader.generation = s.loader.generation := by
  cases step_moves h with
  | @join l => exact absurd rfl (hno l)
  | fire => exact Loader.generation_elapse _ _
  | begin | drop | sleep | ask | settle | write | reply | note | read | prime | close | touch
  | pass => rfl

/-- The open batch grows by a load, which may close it, or is closed by its delay, or stays. -/
theorem pending_step {ev : Event ρ} (h : u.step s ev = some s') :
    (∃ l k, ev = .join l ∧ s.missed.find? l = some k ∧ s'.loader.pending =
        if u.config.threshold ≤ (s.loader.current.push k l).size then none
        else some (s.loader.current.push k l)) ∨
      (∃ b, s.loader.pending = some b ∧ ev = .fire b.generation ∧ s'.loader.pending = none) ∨
      ((∀ l, ev ≠ .join l) ∧ s'.loader.pending = s.loader.pending) := by
  cases step_moves h with
  | @join l k hk =>
    refine .inl ⟨l, k, rfl, hk, ?_⟩
    rw [← Loader.pending_join]
  | @fire g =>
    by_cases hp : ∃ b, s.loader.pending = some b ∧ b.generation = g
    · obtain ⟨b, hb, rfl⟩ := hp
      refine .inr (.inl ⟨b, hb, rfl, ?_⟩)
      rw [Loader.elapse_of_pending hb]
    · refine .inr (.inr ⟨nofun, ?_⟩)
      rw [Loader.elapse_of_ne fun b hb hg => hp ⟨b, hb, hg⟩]
  | begin | drop | sleep | ask | settle | write | reply | note | read | prime | close | touch
  | pass => exact .inr (.inr ⟨nofun, rfl⟩)

/-- The batch that an event closes, if it closes one. -/
inductive Closes (u : Setup ρ) (s : Service ρ) : Event ρ → Batch Nat → Prop where
  /-- A load joins it and it is full. -/
  | full {l : Nat} {k : Key} (missed : s.missed.find? l = some k)
      (full : u.config.threshold ≤ (s.loader.current.push k l).size) :
      Closes u s (.join l) (s.loader.current.push k l)
  /-- Its delay ends while it is open. -/
  | due {b : Batch Nat} (pending : s.loader.pending = some b) : Closes u s (.fire b.generation) b

/-- How a flight goes on when something happens. -/
inductive Advances (u : Setup ρ) (s : Service ρ) : Event ρ → Flight ρ Nat → Flight ρ Nat → Prop where
  | asked {b : Batch Nat} :
      Advances u s (.ask b.generation) { batch := b }
        { batch := b, stage := .asked (s.cache.epoch u.entity.segment) }
  | answered {b : Batch Nat} {epoch : Epoch} {rows : List ρ} :
      Advances u s (.settle b.generation (.ok rows)) { batch := b, stage := .asked epoch }
        { batch := b, stage :=
            let values := b.keys.map fun k => (k, Flight.found? u.entity.key rows k)
            .answered epoch values (if u.config.enabled then values else []) }
  | failed {b : Batch Nat} {epoch : Epoch} {e : StoreError} :
      Advances u s (.settle b.generation (.error e)) { batch := b, stage := .asked epoch }
        { batch := b, stage := .failed e }
  | written {b : Batch Nat} {epoch : Epoch} {values unwritten : List (Key × Option ρ)} {k : Key}
      {row : Option ρ} :
      Advances u s (.write b.generation)
        { batch := b, stage := .answered epoch values ((k, row) :: unwritten) }
        { batch := b, stage := .answered epoch values unwritten }

theorem Advances.batch_eq {ev : Event ρ} {f f' : Flight ρ Nat} (h : Advances u s ev f f') :
    f'.batch = f.batch := by
  cases h <;> rfl

/-- The flight that goes on with an event. -/
def Event.flight? : Event ρ → Option Nat
  | .ask g | .settle g _ | .write g => some g
  | _ => none

theorem advance_step {ev : Event ρ} {g : Nat} (h : u.step s ev = some s') (hev : ev.flight? = some g) :
    ∃ f f', s.loader.flight? g = some f ∧ Advances u s ev f f' ∧ s'.loader.flight? g = some f' := by
  cases step_moves h with
  | @ask g' b hf =>
    cases hev
    rw [Loader.flight?_modify (by exact fun _ => rfl), if_pos rfl]
    obtain ⟨-, rfl⟩ := Loader.mem_flights_of_flight? hf
    exact ⟨_, _, hf, .asked, by rw [hf]; rfl⟩
  | @settle g' b epoch answer hf =>
    cases hev
    rw [Loader.flight?_modify fun f => Flight.batch_settle f _ _ _, if_pos rfl]
    obtain ⟨-, rfl⟩ := Loader.mem_flights_of_flight? hf
    cases answer with
    | ok rows => exact ⟨_, _, hf, .answered, by rw [hf]; rfl⟩
    | error e => exact ⟨_, _, hf, .failed, by rw [hf]; rfl⟩
  | @write g' b epoch values unwritten k row hf =>
    cases hev
    rw [Loader.flight?_modify (by exact fun _ => rfl), if_pos rfl]
    obtain ⟨-, rfl⟩ := Loader.mem_flights_of_flight? hf
    exact ⟨_, _, hf, .written, by rw [hf]; rfl⟩
  | begin | join | drop | sleep | fire | reply | note | read | prime | close | touch | pass => cases hev

/-- A flight stays as it is, begins as a batch that has been closed, goes on, or ends with its answer. -/
theorem flight_step {ev : Event ρ} (hs : s.loader.Numbered) (h : u.step s ev = some s') (g : Nat) :
    s'.loader.flight? g = s.loader.flight? g ∨
      (∃ b, Closes u s ev b ∧ b.generation = g ∧ s.loader.flight? g = none ∧
        s'.loader.flight? g = some { batch := b }) ∨
      (∃ f f', s.loader.flight? g = some f ∧ Advances u s ev f f' ∧
        s'.loader.flight? g = some f') ∨
      (ev = .reply g ∧ (∃ f, s.loader.flight? g = some f ∧ f.ended = true) ∧
        s'.loader.flight? g = none) := by
  by_cases hev : ev.flight? = some g
  · exact .inr (.inr (.inl (advance_step h hev)))
  · -- What goes on is another flight, if any.
    cases step_moves h with
    -- A load may close the batch that it joins.
    | @join l k hk =>
      have hf := s.loader.flights_join u.config.threshold k l
      split at hf
      · rename_i hfull
        rw [Loader.flight?_close hf hs.flight?_current]
        split
        · rename_i hg
          subst hg
          exact .inr (.inl ⟨_, .full hk hfull, rfl, hs.flight?_current, rfl⟩)
        · exact .inl rfl
      · refine .inl ?_
        rw [Loader.flight?, hf, Loader.flight?]
    -- A delay closes its own batch, if that is still open.
    | @fire g' =>
      by_cases hp : ∃ b, s.loader.pending = some b ∧ b.generation = g'
      · obtain ⟨b, hb, rfl⟩ := hp
        rw [Loader.elapse_of_pending hb, Loader.flight?_close rfl (hs.flight?_pending hb)]
        split
        · rename_i hg
          subst hg
          exact .inr (.inl ⟨b, .due hb, rfl, hs.flight?_pending hb, rfl⟩)
        · exact .inl rfl
      · rw [Loader.elapse_of_ne fun b hb hg => hp ⟨b, hb, hg⟩]
        exact .inl rfl
    | ask | write =>
      rw [Loader.flight?_modify (by exact fun _ => rfl), if_neg fun hg => hev (congrArg some hg.symm)]
      exact .inl rfl
    | settle =>
      rw [Loader.flight?_modify fun f => Flight.batch_settle f _ _ _,
        if_neg fun hg => hev (congrArg some hg.symm)]
      exact .inl rfl
    | @reply g' f hf he =>
      rw [Loader.flight?_remove]
      split
      · rename_i hg
        subst hg
        exact .inr (.inr (.inr ⟨rfl, ⟨f, hf, he⟩, rfl⟩))
      · exact .inl rfl
    | begin | drop | sleep | note | read | prime | close | touch | pass => exact .inl rfl

/-- A batch that is closed is on its way from then on. -/
theorem flight_of_closes {ev : Event ρ} {b : Batch Nat} (hs : s.loader.Numbered)
    (h : u.step s ev = some s') (hb : Closes u s ev b) :
    s.loader.flight? b.generation = none ∧ s'.loader.flight? b.generation = some { batch := b } := by
  cases hb with
  | @full l k hk hfull =>
    refine ⟨hs.flight?_current, ?_⟩
    cases step_moves h with | join hk' =>
    obtain rfl := Option.some.inj (hk.symm.trans hk')
    have hf := s.loader.flights_join u.config.threshold k l
    rw [if_pos hfull] at hf
    rw [Loader.flight?_close hf hs.flight?_current, if_pos rfl]
  | due hp =>
    refine ⟨hs.flight?_pending hp, ?_⟩
    cases step_moves h with | fire =>
    rw [Loader.elapse_of_pending hp, Loader.flight?_close rfl (hs.flight?_pending hp), if_pos rfl]

/-- A batch grows by the loads that join it, and is gone when it has answered. Nothing else happens to
it, whether it is open or on its way. -/
theorem batch_step {ev : Event ρ} (hs : s.loader.Numbered) (h : u.step s ev = some s') (g : Nat) :
    (∃ l k, ev = .join l ∧ s.missed.find? l = some k ∧ s.loader.current.generation = g ∧
        s'.loader.batch? g = some (s.loader.current.push k l)) ∨
      (ev = .reply g ∧ (∃ f, s.loader.flight? g = some f ∧ f.ended = true) ∧
        s'.loader.batch? g = none) ∨
      ((∀ l, ev = .join l → s.loader.current.generation ≠ g) ∧ ev ≠ .reply g ∧
        s'.loader.batch? g = s.loader.batch? g) := by
  cases step_moves h with
  | @join l k hk =>
    rw [hs.batch?_join]
    split
    · rename_i hg
      exact .inl ⟨l, k, rfl, hk, hg.symm, rfl⟩
    · rename_i hg
      exact .inr (.inr ⟨fun _ _ e => hg e.symm, by simp, rfl⟩)
  | fire =>
    rw [hs.batch?_elapse]
    exact .inr (.inr ⟨by simp, by simp, rfl⟩)
  | ask | write =>
    rw [Loader.batch?_modify (by exact fun _ => rfl)]
    exact .inr (.inr ⟨by simp, by simp, rfl⟩)
  | settle =>
    rw [Loader.batch?_modify fun f => Flight.batch_settle f _ _ _]
    exact .inr (.inr ⟨by simp, by simp, rfl⟩)
  | @reply g' f hf he =>
    rw [hs.batch?_remove hf]
    split
    · rename_i hg
      subst hg
      exact .inr (.inl ⟨rfl, ⟨f, hf, he⟩, rfl⟩)
    · rename_i hg
      exact .inr (.inr ⟨by simp, fun e => hg (Event.reply.inj e).symm, rfl⟩)
  | begin | drop | sleep | note | read | prime | close | touch | pass =>
    exact .inr (.inr ⟨by simp, by simp, rfl⟩)

/-! ## Pages -/

/-- A page is noted, gets its rows, is put into the cache row by row, is done, or stays as it is. -/
theorem page_step {ev : Event ρ} (h : u.step s ev = some s') (p : Nat) :
    s'.pages.find? p = s.pages.find? p ∨
      (ev = .note ∧ p = s.pageCount ∧
        s'.pages.find? p = some { epoch := s.cache.epoch u.entity.segment }) ∨
      (∃ epoch rows, ev = .read p rows ∧ s.pages.find? p = some { epoch } ∧
        s'.pages.find? p = some { epoch, rows }) ∨
      (∃ epoch row rows, ev = .prime p ∧ s.pages.find? p = some { epoch, rows := some (row :: rows) } ∧
        s'.pages.find? p = some { epoch, rows }) ∨
      (ev = .close p ∧ s'.pages.find? p = none) := by
  cases step_moves h with
  | note =>
    by_cases hp : p = s.pageCount
    · exact .inr (.inl ⟨rfl, hp, by simp [hp]⟩)
    · exact .inl (by simp [hp])
  | @read p' epoch rows hp' =>
    by_cases hp : p = p'
    · subst hp
      exact .inr (.inr (.inl ⟨epoch, rows, rfl, hp', by simp⟩))
    · exact .inl (by simp [hp])
  | @prime p' epoch row rows hp' =>
    by_cases hp : p = p'
    · subst hp
      exact .inr (.inr (.inr (.inl ⟨epoch, row, rows, rfl, hp', by simp⟩)))
    · exact .inl (by simp [hp])
  | @close p' =>
    by_cases hp : p = p'
    · subst hp
      exact .inr (.inr (.inr (.inr ⟨rfl, by simp⟩)))
    · exact .inl (by simp [hp])
  | begin | join | drop | sleep | fire | ask | settle | write | reply | touch | pass => exact .inl rfl

end ReadThrough.Service
