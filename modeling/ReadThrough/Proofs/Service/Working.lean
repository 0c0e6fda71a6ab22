import ReadThrough.Proofs.Cache.Agreement
import ReadThrough.Proofs.Loader.Replies
import ReadThrough.Proofs.Service.Outstanding
/-!
# Working while a table stays as it is

Between two changes to a table a service works in stretches: the events come in any order in which they are
possible, and the store answers with what the table has (`Setup.Works`, `Stretch`). A service whose cache
and whose batches know nothing but what the table has is `Steady`. It stays so, and tells every load that
ends the row that the table has under the key of the load, or that there is none (`Stretch.tells`).
-/

namespace ReadThrough

/-- What a flight knows of the rows of a table is what the table has, and the table has not failed it. -/
def Flight.Agrees {ρ τ ω : Type} (t : Table ρ ω) (f : Flight ρ τ) : Prop :=
  match f.stage with
  | .closed | .asked _ => True
  | .answered _ values unwritten =>
    values = f.batch.keys.map (fun k => (k, t.get? k)) ∧ ∀ v ∈ unwritten, v.2 = t.get? v.1
  | .failed _ => False

namespace Service

variable {ρ ω : Type} {u : Setup ρ} {t : Table ρ ω} {s s' s'' : Service ρ}

/-- What goes on in a service while a table stays as it is. The store answers a batch with the rows of the
table, or not in time where its time is limited. All callers wait until they are told, and nobody else
does anything to the cache but purge it. -/
def Setup.Works (u : Setup ρ) (t : Table ρ ω) (s : Service ρ) : Event ρ → Prop
  | .settle g answer =>
    (∃ f, s.loader.flight? g = some f ∧ answer = .ok (t.findByIds f.batch.keys)) ∨
      (answer = .error .timeout ∧ u.config.fetchTimeout.isSome = true)
  | .touch op => op = .purge
  | .drop _ | .note | .read _ _ | .prime _ | .close _ => False
  | .begin _ | .join _ | .sleep _ | .fire _ | .ask _ | .write _ | .reply _ | .pass _ => True

/-- A service that knows nothing of the rows of a table but what the table has: neither in its cache nor in
its batches. -/
structure Steady (u : Setup ρ) (t : Table ρ ω) (s : Service ρ) : Prop where
  sound : Sound u s
  cache : RowCache.Agrees u.entity t s.cache
  flights : ∀ g f, s.loader.flight? g = some f → f.Agrees t
  undropped : s.dropped = []

/-! ## One step -/

namespace Steady

/-- All that matters about the cache is that it agrees with the table. -/
theorem withCache (hs : Steady u t s) {c : RowCache ρ} (hc : RowCache.Agrees u.entity t c) :
    Steady u t { s with cache := c } where
  sound := { hs.sound with }
  cache := hc
  flights := hs.flights
  undropped := hs.undropped

theorem row_of_look (hs : Steady u t s) {k : Key} {row : Option ρ} (h : (u.look s k).1 = some row) :
    row = t.get? k := by
  obtain ⟨x, hx, hv⟩ := find?_of_look h
  have hrow := hs.cache k x hx (by rw [hv])
  rw [hv] at hrow
  exact hrow

theorem cache_step (hs : Steady u t s) {ev : Event ρ} (hw : u.Works t s ev)
    (h : u.step s ev = some s') : RowCache.Agrees u.entity t s'.cache := by
  cases step_moves h with
  | begin =>
    rw [Setup.look]
    split
    · rw [look_snd]
      exact hs.cache.apply_of_stores?_none _ _ fun _ => rfl
    · exact hs.cache
  | @write g b epoch values unwritten k row hf =>
    obtain rfl : row = t.get? k := (hs.flights g _ hf).2 _ List.mem_cons_self
    exact hs.cache.keepIfCurrent _ k epoch
  | touch =>
    obtain rfl := hw
    exact hs.cache.apply_of_stores?_none _ .purge fun _ => rfl
  | note | read | prime | close | drop => cases hw
  | join | sleep | fire | ask | settle | reply | pass => exact hs.cache

/-- The store tells a flight what the table has. -/
theorem advances (ht : t.WellKeyed u.entity) (hlimit : u.config.fetchTimeout = none)
    (hs : Steady u t s) {ev : Event ρ} (hw : u.Works t s ev) {f f' : Flight ρ Nat}
    (hf : s.loader.flight? f.batch.generation = some f) (h : Advances u s ev f f') : f'.Agrees t := by
  cases h with
  | asked => trivial
  | @answered b epoch rows =>
    have hrows : rows = t.findByIds b.keys := by
      rcases hw with ⟨f', hf', he⟩ | ⟨he, -⟩
      · rw [hf] at hf'
        cases hf'
        cases he
        rfl
      · cases he
    have hfound : b.keys.map (fun k => (k, Flight.found? u.entity.key rows k)) =
        b.keys.map fun k => (k, t.get? k) := by
      refine List.map_congr_left fun k hk => ?_
      rw [hrows, ht.found?_findByIds hk]
    refine ⟨hfound, fun v hv => ?_⟩
    rw [hfound] at hv
    split at hv
    · obtain ⟨k, -, rfl⟩ := List.mem_map.1 hv
      rfl
    · cases hv
  -- The store fails only by taking too long, and its time is not limited.
  | failed =>
    rcases hw with ⟨f', -, he⟩ | ⟨-, htime⟩
    · cases he
    · rw [hlimit] at htime
      cases htime
  | @written b epoch values unwritten k row =>
    obtain ⟨hvalues, hunwritten⟩ := hs.flights _ _ hf
    exact ⟨hvalues, fun v hv => hunwritten v (List.mem_cons_of_mem _ hv)⟩

theorem step (ht : t.WellKeyed u.entity) (hlimit : u.config.fetchTimeout = none) (hs : Steady u t s)
    {ev : Event ρ} (hw : u.Works t s ev) (h : u.step s ev = some s') : Steady u t s' where
  sound := hs.sound.step h
  cache := hs.cache_step hw h
  flights := by
    intro g f' hf'
    rcases flight_step hs.sound.numbered h g with
      hsame | ⟨b, -, -, -, hnew⟩ | ⟨f, f₁, hf, hadv, hnew⟩ | ⟨-, -, hgone⟩
    · exact hs.flights g f' (hsame ▸ hf')
    · rw [hnew] at hf'
      cases hf'
      trivial
    · rw [hnew] at hf'
      cases hf'
      obtain ⟨-, rfl⟩ := Loader.mem_flights_of_flight? hf
      exact advances ht hlimit hs hw hf hadv
    · rw [hgone] at hf'
      cases hf'
  undropped := by
    cases step_moves h with
    | drop => cases hw
    | begin | join | sleep | fire | ask | settle | write | reply | note | read | prime | close | touch
    | pass => exact hs.undropped

/-- What is told is what the table has under the key of the load, and the loads that are told are those
that end. -/
theorem mem_answers (hs : Steady u t s) {ev : Event ρ} (h : u.step s ev = some s') (l : Nat)
    (x : Loaded ρ) :
    (l, x) ∈ u.answers s ev ↔ ∃ k, (l, k) ∈ u.finished s ev ∧ x = .ok (t.get? k) := by
  cases step_moves h with
  | @begin k =>
    simp only [Setup.answers, Setup.finished]
    cases hk : (u.look s k).1 with
    | none => simp
    | some row =>
      obtain rfl := hs.row_of_look hk
      simp
  | @reply g f hf hended =>
    have hall : u.answers s (.reply g) = f.replies := by
      simp [Setup.answers, Loader.reply, hf, hs.undropped]
    rw [hall, finished_of_reply hf]
    obtain ⟨b, stage⟩ := f
    cases stage with
    | closed | asked => cases hended
    | answered epoch values unwritten =>
      obtain rfl : values = b.keys.map fun k => (k, t.get? k) := (hs.flights g _ hf).1
      cases unwritten with
      | nil =>
        rw [Flight.mem_replies_answered]
        simp
      | cons => cases hended
    | failed e => exact absurd (hs.flights g _ hf) id
  | join | drop | sleep | fire | ask | settle | write | note | read | prime | close | touch | pass =>
    simp [Setup.answers, Setup.finished]

end Steady

/-! ## Stretches of work -/

/-- A stretch of work of a service: the keys of the loads that begin in it, and what is told to whom. -/
inductive Stretch (u : Setup ρ) (t : Table ρ ω) :
    Service ρ → List Key → List (Nat × Loaded ρ) → Service ρ → Prop where
  | idle {s : Service ρ} : Stretch u t s [] [] s
  | step {s s' s'' : Service ρ} {ev : Event ρ} {keys : List Key} {told : List (Nat × Loaded ρ)}
      (works : u.Works t s ev) (next : u.step s ev = some s') (rest : Stretch u t s' keys told s'') :
      Stretch u t s ((s.begun ev).map Prod.snd ++ keys) (u.answers s ev ++ told) s''

/-- Loads with the numbers that they get when they begin one after another. -/
def numbered (first : Nat) (keys : List Key) : List (Nat × Key) := (keys.zipIdx first).map Prod.swap

theorem numbered_append (first : Nat) (keys keys' : List Key) :
    numbered first (keys ++ keys') = numbered first keys ++ numbered (first + keys.length) keys' := by
  rw [numbered, List.zipIdx_append, List.map_append]
  rfl

theorem mem_numbered {first l : Nat} {keys : List Key} {k : Key} :
    (l, k) ∈ numbered first keys ↔ ∃ i, l = first + i ∧ keys[i]? = some k := by
  simp only [numbered, List.mem_map, Prod.exists, Prod.swap_prod_mk, Prod.mk.injEq,
    List.mem_zipIdx_iff_le_and_getElem?_sub]
  constructor
  · rintro ⟨k', l', ⟨hle, hk⟩, rfl, rfl⟩
    exact ⟨l' - first, by omega, hk⟩
  · rintro ⟨i, rfl, hk⟩
    exact ⟨k, first + i, ⟨by omega, by rw [Nat.add_sub_cancel_left]; exact hk⟩, rfl, rfl⟩

/-- The loads that begin with an event are numbered from the next number on. -/
theorem numbered_begun (s : Service ρ) (ev : Event ρ) :
    numbered s.loads ((s.begun ev).map Prod.snd) = s.begun ev := by
  cases ev <;> rfl

theorem loads_of_begun {ev : Event ρ} (h : u.step s ev = some s') :
    s'.loads = s.loads + ((s.begun ev).map Prod.snd).length := by
  rw [loads_step h]
  cases ev <;> rfl

namespace Stretch

theorem trans {keys keys' : List Key} {told told' : List (Nat × Loaded ρ)}
    (h : Stretch u t s keys told s') (h' : Stretch u t s' keys' told' s'') :
    Stretch u t s (keys ++ keys') (told ++ told') s'' := by
  induction h with
  | idle => exact h'
  | step works next _ ih =>
    rw [List.append_assoc, List.append_assoc]
    exact .step works next (ih h')

variable (ht : t.WellKeyed u.entity) (hlimit : u.config.fetchTimeout = none)
include ht hlimit

theorem steady {keys : List Key} {told : List (Nat × Loaded ρ)} (h : Stretch u t s keys told s')
    (hs : Steady u t s) : Steady u t s' := by
  induction h with
  | idle => exact hs
  | step works next _ ih => exact ih (hs.step ht hlimit works next)

/-- What is outstanding before a stretch and what begins in it is what ends in it and what is outstanding
afterwards; and each load that ends is told what the table has under its key. -/
theorem tells {keys : List Key} {told : List (Nat × Loaded ρ)} (h : Stretch u t s keys told s')
    (hs : Steady u t s) :
    ∃ ended, (s.outstanding ++ numbered s.loads keys).Perm (ended ++ s'.outstanding) ∧
      ∀ l x, (l, x) ∈ told ↔ ∃ k, (l, k) ∈ ended ∧ x = .ok (t.get? k) := by
  induction h with
  | @idle s =>
    refine ⟨[], ?_, by simp⟩
    rw [List.nil_append]
    exact .of_eq (List.append_nil _)
  | @step s s' s'' ev keys told works next rest ih =>
    obtain ⟨ended, hperm, htold⟩ := ih (hs.step ht hlimit works next)
    have hstep := outstanding_step hs.sound next
    -- First ends what the first event finishes, and then what the rest does.
    refine ⟨u.finished s ev ++ ended, ?_, ?_⟩
    · rw [numbered_append, numbered_begun, ← loads_of_begun next, ← List.append_assoc,
        List.append_assoc (u.finished s ev)]
      have hrest := hperm.append_left (u.finished s ev)
      rw [← List.append_assoc] at hrest
      exact (hstep.append_right _).trans hrest
    · intro l x
      rw [List.mem_append, hs.mem_answers next, htold]
      constructor
      · rintro (⟨k, hk, rfl⟩ | ⟨k, hk, rfl⟩)
        · exact ⟨k, List.mem_append_left _ hk, rfl⟩
        · exact ⟨k, List.mem_append_right _ hk, rfl⟩
      · rintro ⟨k, hk, rfl⟩
        rcases List.mem_append.1 hk with hk | hk
        · exact .inl ⟨k, hk, rfl⟩
        · exact .inr ⟨k, hk, rfl⟩

end Stretch

end Service

end ReadThrough
