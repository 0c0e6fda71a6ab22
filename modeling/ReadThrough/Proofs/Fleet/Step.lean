import ReadThrough.Proofs.Fleet.Basic
/-!
# What a step of a fleet does

`Moves` says what a fleet is after each of the events that are possible. A step of a fleet is a step of each
of its processes (`step_process`), most of which just wait. The table changes by changes only
(`table_step`); a change, an announcement and the position of a listener each have a short life of their
own (`changes_step`, `outbox_step`, `listeners_step`).
-/

namespace ReadThrough.Fleet

variable {ι ρ : Type} [DecidableEq ι] {F : Setup ι ρ} {s s' : Fleet ι ρ}

/-! ## Steps -/

/-- The event is a step of one process and of nobody else, in which the table is read for the process if
need be. -/
inductive Within (F : Setup ι ρ) (s : Fleet ι ρ) : Event ι ρ → ι → Service.Event ρ → Prop where
  | act {B : ι} {e : Service.Event ρ} (own : ofStore e = false) : Within F s (.act B e) B e
  | answer {B : ι} {g : Nat} {f : Flight ρ Nat} (flight : (s.services B).loader.flight? g = some f) :
      Within F s (.answer B g) B (.settle g (.ok (s.table.findByIds f.batch.keys)))
  | expire {B : ι} {g : Nat} (limited : (F.config B).fetchTimeout.isSome = true) :
      Within F s (.expire B g) B (.settle g (.error .timeout))
  | deliver {B : ι} {p : Nat} {o : FindOptions} {rows : List ρ}
      (found : s.table.findMany F.entity o = .ok rows) :
      Within F s (.deliver B p o) B (.read p rows)

/-- The table is changed, with some observers: the table after that, and the notices. -/
def Setup.Writes (F : Setup ι ρ) (s : Fleet ι ρ) (observers : List ι) (w : Write ρ) (table : Table ρ ι)
    (news : List (Notice ι)) : Prop :=
  ({ s.table with observers } : Table ρ ι).write? F.entity w = some (table, news)

/-- A notice tells an observer of the row under a key. -/
structure Setup.IsFor (F : Setup ι ρ) (notice : Notice ι) (A : ι) (k : Key) : Prop where
  observer : notice.observer = A
  segment : notice.segment = F.entity.segment
  key : notice.key = k

/-- What an observer announces of a change. -/
def Setup.payload (F : Setup ι ρ) (notice : Notice ι) : String :=
  (announcement (F.id notice.observer) notice.change.action notice.segment (some notice.key)).encode

/-- The fleet in which a process has another cache. -/
def withCache (s : Fleet ι ρ) (B : ι) (cache : RowCache ρ) : Fleet ι ρ :=
  { s with services := Function.update s.services B { s.services B with cache } }

/-- The events that are possible, and the fleet after each. -/
inductive Moves (F : Setup ι ρ) (s : Fleet ι ρ) : Event ι ρ → Fleet ι ρ → Prop where
  | within {ev : Event ι ρ} {B : ι} {e : Service.Event ρ} {t : Service ρ} (is : Within F s ev B e)
      (next : (F.service B).step (s.services B) e = some t) :
      Moves F s ev { s with services := Function.update s.services B t }
  | refused {observers : List ι} {w : Write ρ} : Moves F s (.change observers w) s
  | changed {observers : List ι} {w : Write ρ} {table : Table ρ ι} {news : List (Notice ι)}
      (writes : F.Writes s observers w table news) :
      Moves F s (.change observers w)
        { s with
          table, changes := s.changes.insert s.nextChange news, nextChange := s.nextChange + 1 }
  | told {c : Nat} {notice : Notice ι} {news : List (Notice ι)}
      (left : s.changes.find? c = some (notice :: news)) :
      Moves F s (.observe c)
        { s.withCache notice.observer ((s.services notice.observer).cache.invalidate notice.segment
            (some notice.key)) with
          changes := s.changes.insert c news
          outbox := if F.linked notice.observer then
              s.outbox.insert s.nextPost (F.payload notice)
            else s.outbox
          nextPost := s.nextPost + 1 }
  | finished {c : Nat} (left : s.changes.find? c = some []) :
      Moves F s (.finish c) { s with changes := s.changes.erase c }
  | published {m : Nat} {payload : String} (posted : s.outbox.find? m = some payload) :
      Moves F s (.publish m)
        { s with bus := s.bus.publish payload, outbox := s.outbox.erase m }
  | listening {B : ι} (deaf : s.listeners B = none) :
      Moves F s (.listen B)
        { s with listeners := Function.update s.listeners B (some s.bus.published) }
  | heard {B : ι} {place next : Nat} {item : Except BusError String}
      (listens : s.listeners B = some place) (receives : s.bus.receive place = some (item, next)) :
      Moves F s (.hear B)
        { s.withCache B ((s.services B).cache.hear (F.id B) item).2 with
          listeners := Function.update s.listeners B (some next) }

theorem moves_of_within {ev : Event ι ρ} {B : ι} {e : Service.Event ρ} (is : Within F s ev B e)
    (h : F.within s B e = some s') : Moves F s ev s' := by
  simp only [Setup.within, Option.map_eq_some_iff] at h
  obtain ⟨t, ht, rfl⟩ := h
  exact .within is ht

theorem step_moves {ev : Event ι ρ} (h : F.step s ev = some s') : Moves F s ev s' := by
  cases ev with
  | act B e =>
    simp only [Setup.step] at h
    split at h
    · cases h
    · rename_i hown
      exact moves_of_within (.act (Bool.eq_false_of_not_eq_true hown)) h
  | answer B g =>
    simp only [Setup.step, Option.bind_eq_some_iff] at h
    obtain ⟨f, hf, h⟩ := h
    exact moves_of_within (.answer hf) h
  | expire B g =>
    simp only [Setup.step] at h
    split at h
    · rename_i hlimited
      exact moves_of_within (.expire hlimited) h
    · cases h
  | deliver B p o =>
    simp only [Setup.step, Option.bind_eq_some_iff] at h
    obtain ⟨rows, hrows, h⟩ := h
    cases hfound : s.table.findMany F.entity o with
    -- A page that the table refuses is not delivered.
    | error err =>
      rw [hfound] at hrows
      cases hrows
    | ok rows' =>
      rw [hfound] at hrows
      cases hrows
      exact moves_of_within (.deliver hfound) h
  | change observers w =>
    simp only [Setup.step] at h
    split at h
    · rename_i table news hw
      cases h
      exact .changed hw
    · cases h
      exact .refused
  | observe c =>
    simp only [Setup.step] at h
    split at h
    · rename_i notice news hc
      cases h
      exact .told hc
    · cases h
  | finish c =>
    simp only [Setup.step] at h
    split at h
    · rename_i hc
      cases h
      exact .finished hc
    · cases h
  | publish m =>
    simp only [Setup.step, Option.map_eq_some_iff] at h
    obtain ⟨payload, hm, rfl⟩ := h
    exact .published hm
  | listen B =>
    simp only [Setup.step] at h
    split at h
    · rename_i hB
      cases h
      exact .listening hB.2
    · cases h
  | hear B =>
    simp only [Setup.step, Option.map_eq_some_iff, Option.bind_eq_some_iff] at h
    obtain ⟨⟨item, next⟩, ⟨place, hplace, hitem⟩, rfl⟩ := h
    exact .heard hplace hitem

/-! ## Processes -/

/-- To the other processes a step of one process is a step in which they wait. -/
theorem Within.eventOf_eq {ev : Event ι ρ} {C : ι} {e : Service.Event ρ} (h : Within F s ev C e)
    (B : ι) : F.eventOf s B ev = if C = B then e else .pass 0 := by
  cases h with
  | act | expire => rfl
  | answer hf =>
    rw [Setup.eventOf, hf]
    rfl
  | deliver hfound =>
    rw [Setup.eventOf, hfound]
    rfl

/-- What a process hears puts nothing into its cache. -/
theorem keeps_of_heard? (e : Entity ρ) {self : Uuid} {item : Except BusError String}
    {op : Cache.Op (Held ρ)} (h : Cache.heard? self item = some op) : Service.keeps e op = false := by
  simp only [Cache.heard?] at h
  split at h
  · split at h
    · rename_i m _
      split at h
      · cases h
      · cases h
        cases m.key <;> rfl
    · cases h
  · split at h <;> cases h
    rfl

/-- What others do to the cache of a process is, to the process, that somebody touches its cache. -/
theorem step_withCache {C : ι} {e : Service.Event ρ} {cache : RowCache ρ}
    (h : (F.service C).step (s.services C) e = some { s.services C with cache }) (B : ι) :
    (F.service B).step (s.services B) (if C = B then e else .pass 0) =
      some ((s.withCache C cache).services B) := by
  show _ = some (Function.update s.services C { s.services C with cache } B)
  split
  · rename_i hB
    subst hB
    rw [Function.update_self]
    exact h
  · rename_i hB
    rw [Function.update_of_ne (Ne.symm hB)]
    rfl

/-- A step of the fleet is a step of each of its processes. -/
theorem step_process {ev : Event ι ρ} (h : F.step s ev = some s') (B : ι) :
    (F.service B).step (s.services B) (F.eventOf s B ev) = some (s'.services B) := by
  cases step_moves h with
  -- One process takes a step, and the others wait.
  | @within _ C e t is next =>
    rw [is.eventOf_eq]
    show _ = some (Function.update s.services C t B)
    split
    · rename_i hB
      subst hB
      rw [Function.update_self]
      exact next
    · rename_i hB
      rw [Function.update_of_ne (Ne.symm hB)]
      rfl
  -- An observer that is told does something to the cache of its service.
  | @told c notice news left =>
    simp only [Setup.eventOf, left]
    exact step_withCache rfl B
  | @heard C place next item listens receives =>
    simp only [Setup.eventOf, listens, receives, Option.bind_some, Option.map_some]
    refine step_withCache ?_ B
    rw [Cache.hear_snd _ _ (s.services C).clock]
    cases hop : Cache.heard? (ν := Held ρ) (F.id C) item with
    | none => rfl
    | some op =>
      show (if Service.keeps F.entity op then none else _) = _
      rw [keeps_of_heard? F.entity hop]
      rfl
  | refused | changed | finished | published | listening => rfl

omit [DecidableEq ι] in
/-- What the store tells a process is what the table has, or that its time is up. -/
theorem Within.of_store {ev : Event ι ρ} {B : ι} {e : Service.Event ρ} (h : Within F s ev B e)
    (he : ofStore e = true) :
    (∃ g f, e = .settle g (.ok (s.table.findByIds f.batch.keys)) ∧
        (s.services B).loader.flight? g = some f) ∨
      (∃ g, e = .settle g (.error .timeout) ∧ (F.config B).fetchTimeout.isSome = true) ∨
      (∃ p o rows, e = .read p rows ∧ s.table.findMany F.entity o = .ok rows) := by
  cases h with
  | act own =>
    rw [own] at he
    cases he
  | answer flight => exact .inl ⟨_, _, rfl, flight⟩
  | expire limited => exact .inr (.inl ⟨_, rfl, limited⟩)
  | deliver found => exact .inr (.inr ⟨_, _, _, rfl, found⟩)

/-- A process hears of the store in a step of its own, and in no other. -/
theorem within_of_store {ev : Event ι ρ} (h : F.step s ev = some s') {B : ι}
    (he : ofStore (F.eventOf s B ev) = true) : Within F s ev B (F.eventOf s B ev) := by
  cases step_moves h with
  | @within _ C e t is next =>
    rw [is.eventOf_eq] at he ⊢
    split at he
    · rename_i hB
      subst hB
      rw [if_pos rfl]
      exact is
    · cases he
  -- What an observer is told and what a listener hears are no news of the store.
  | @told c notice news left =>
    simp only [Setup.eventOf, left] at he
    split at he <;> cases he
  | @heard C place next item listens receives =>
    simp only [Setup.eventOf, listens, receives, Option.bind_some, Option.map_some] at he
    revert he
    split
    · cases Cache.heard? (ν := Held ρ) (F.id C) item <;> (intro he; cases he)
    · intro he
      cases he
  | refused | changed | finished | published | listening => cases he

/-! ## Single parts -/

theorem table_step {ev : Event ι ρ} (h : F.step s ev = some s') :
    s'.table = s.table ∨
      ∃ observers w news, ev = .change observers w ∧ F.Writes s observers w s'.table news := by
  cases step_moves h with
  | changed hw => exact .inr ⟨_, _, _, rfl, hw⟩
  | within | refused | told | finished | published | listening | heard => exact .inl rfl

theorem nextChange_step {ev : Event ι ρ} (h : F.step s ev = some s') :
    s.nextChange ≤ s'.nextChange := by
  cases step_moves h with
  | changed => exact Nat.le_succ _
  | within | refused | told | finished | published | listening | heard => exact Nat.le_refl _

/-- A change is begun with its notices, tells one observer after another, and returns. -/
theorem changes_step {ev : Event ι ρ} (h : F.step s ev = some s') (c : Nat) :
    s'.changes.find? c = s.changes.find? c ∨
      (∃ observers w table news, ev = .change observers w ∧ F.Writes s observers w table news ∧
        c = s.nextChange ∧ s'.nextChange = c + 1 ∧ s'.changes.find? c = some news) ∨
      (∃ notice news, ev = .observe c ∧ s.changes.find? c = some (notice :: news) ∧
        s'.changes.find? c = some news) ∨
      (ev = .finish c ∧ s.changes.find? c = some [] ∧ s'.changes.find? c = none) := by
  cases step_moves h with
  | changed hw =>
    by_cases hc : c = s.nextChange
    · exact .inr (.inl ⟨_, _, _, _, rfl, hw, hc, by simp [hc], by simp [hc]⟩)
    · exact .inl (by simp [hc])
  | @told c' notice news hc' =>
    by_cases hc : c = c'
    · subst hc
      exact .inr (.inr (.inl ⟨notice, news, rfl, hc', by simp⟩))
    · exact .inl (by simp [hc])
  | @finished c' hc' =>
    by_cases hc : c = c'
    · subst hc
      exact .inr (.inr (.inr ⟨rfl, hc', by simp⟩))
    · exact .inl (by simp [hc])
  | within | refused | published | listening | heard => exact .inl rfl

theorem nextPost_step {ev : Event ι ρ} (h : F.step s ev = some s') : s.nextPost ≤ s'.nextPost := by
  cases step_moves h with
  | told => exact Nat.le_succ _
  | within | refused | changed | finished | published | listening | heard => exact Nat.le_refl _

/-- An announcement is left by an observer, and is published. -/
theorem outbox_step {ev : Event ι ρ} (h : F.step s ev = some s') (m : Nat) :
    (ev ≠ .publish m ∧ s'.outbox.find? m = s.outbox.find? m) ∨
      (∃ c notice news, ev = .observe c ∧ s.changes.find? c = some (notice :: news) ∧
        F.linked notice.observer = true ∧ m = s.nextPost ∧
        s'.outbox.find? m = some (F.payload notice)) ∨
      (ev = .publish m ∧ (∃ payload, s.outbox.find? m = some payload) ∧ s'.outbox.find? m = none) := by
  cases step_moves h with
  | within is =>
    refine .inl ⟨?_, rfl⟩
    rintro rfl
    cases is
  | @told c notice news hc =>
    by_cases hl : F.linked notice.observer = true
    · by_cases hm : m = s.nextPost
      · exact .inr (.inl ⟨c, notice, news, rfl, hc, hl, hm, by simp [hl, hm]⟩)
      · exact .inl ⟨by simp, by simp [hl, hm]⟩
    · exact .inl ⟨by simp, by simp [hl]⟩
  | @published m' payload hm' =>
    by_cases hm : m = m'
    · subst hm
      exact .inr (.inr ⟨rfl, ⟨payload, hm'⟩, by simp⟩)
    · exact .inl ⟨fun e => hm (Event.publish.inj e).symm, by simp [hm]⟩
  | refused | changed | finished | listening | heard => exact .inl ⟨by simp, rfl⟩

theorem bus_step {ev : Event ι ρ} (h : F.step s ev = some s') :
    s'.bus = s.bus ∨ ∃ m payload, ev = .publish m ∧ s.outbox.find? m = some payload ∧
      s'.bus = s.bus.publish payload := by
  cases step_moves h with
  | published hm => exact .inr ⟨_, _, rfl, hm, rfl⟩
  | within | refused | changed | told | finished | listening | heard => exact .inl rfl

/-- A process begins to listen at the end of the bus, and goes on by what it hears. -/
theorem listeners_step {ev : Event ι ρ} (h : F.step s ev = some s') (B : ι) :
    s'.listeners B = s.listeners B ∨
      (ev = .listen B ∧ s.listeners B = none ∧ s'.listeners B = some s.bus.published) ∨
      (∃ place item next, ev = .hear B ∧ s.listeners B = some place ∧
        s.bus.receive place = some (item, next) ∧ s'.listeners B = some next) := by
  cases step_moves h with
  | @listening C hC =>
    by_cases hB : B = C
    · subst hB
      exact .inr (.inl ⟨rfl, hC, by simp⟩)
    · exact .inl (by simp [hB])
  | @heard C place next item hplace hitem =>
    by_cases hB : B = C
    · subst hB
      exact .inr (.inr ⟨place, item, next, rfl, hplace, hitem, by simp⟩)
    · exact .inl (by simp [hB])
  | within | refused | changed | told | finished | published => exact .inl rfl

end ReadThrough.Fleet
