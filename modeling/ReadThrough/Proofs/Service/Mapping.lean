import ReadThrough.Proofs.Service.Hearing
import ReadThrough.Proofs.Service.Sparing
/-!
# How rows find their way back to keys

A store may answer with rows in any order, with none for a key or several, and with rows that nobody asked
for. Each key of the batch gets the last row with it, or that there is none (`LastUnder`). This is what
those hear who wait for the key, and what is written to the cache before they do; and nothing else is
written for the batch (`mapping`). With the cache off nothing is written, and what an invalidation has
overtaken leaves the cache as it is; those who wait hear the same.
-/

namespace ReadThrough

/-- What rows say of a key: the last of them with it, or that none has it. -/
def LastUnder {ρ : Type} (key : ρ → Key) (rows : List ρ) (k : Key) : Option ρ → Prop
  | some row => ∃ before after, rows = before ++ row :: after ∧ key row = k ∧ ∀ r ∈ after, key r ≠ k
  | none => ∀ row ∈ rows, key row ≠ k

/-- A flight finds the last row under a key. -/
theorem lastUnder_iff {ρ : Type} {key : ρ → Key} {rows : List ρ} {k : Key} {v : Option ρ} :
    LastUnder key rows k v ↔ v = Flight.found? key rows k := by
  rw [Flight.found?, eq_comm]
  cases v with
  | none => simp [LastUnder]
  | some row =>
    rw [List.find?_eq_some_iff_append]
    simp only [decide_eq_true_eq, Bool.not_eq_true', decide_eq_false_iff_not]
    constructor
    · rintro ⟨before, after, rfl, hrow, hafter⟩
      refine ⟨hrow, after.reverse, before.reverse, by simp, fun r hr => ?_⟩
      exact hafter r (List.mem_reverse.1 hr)
    · rintro ⟨hrow, after, before, hrows, hafter⟩
      refine ⟨before.reverse, after.reverse, ?_, hrow, fun r hr => ?_⟩
      · have h := congrArg List.reverse hrows
        simpa using h
      · exact hafter r (List.mem_reverse.1 hr)

namespace Service

variable {ρ : Type} {u : Setup ρ}

/-- What has been written to the cache for a flight when it is at a stage: what it has learned, but for what
it has still to write; nothing with the cache off. -/
def Setup.Records (u : Setup ρ) (written : List (Key × Option ρ)) : Stage ρ → Prop
  | .answered _ values unwritten =>
    written ++ unwritten = if u.config.enabled then values else []
  | .closed | .asked _ | .failed _ => written = []

namespace Run

variable (R : Run u)

/-- What has been written to the cache for a batch before a step, in the order in which it was written. -/
def writes (g : Nat) : Nat → List (Key × Option ρ)
  | 0 => []
  | n + 1 => writes g n ++
    match R.event n with
    | .write g' =>
      if g' = g then ((R.state n).loader.write? g).toList.map fun w => (w.1, w.2.1) else []
    | _ => []

variable {R}

/-! ## What is written -/

theorem Writes.writes_succ {n g : Nat} {epoch : Epoch} {k : Key} {row : Option ρ}
    (h : R.Writes n g epoch k row) : R.writes g (n + 1) = R.writes g n ++ [(k, row)] := by
  obtain ⟨he, b, values, unwritten, hf⟩ := h
  rw [writes, he]
  simp [Loader.write?, hf]

theorem writes_succ_of_ne {n g : Nat} (h : R.event n ≠ .write g) :
    R.writes g (n + 1) = R.writes g n := by
  rw [writes]
  split
  · rename_i g' he
    rw [if_neg fun hg => h (he.trans (congrArg Event.write hg)), List.append_nil]
  · exact List.append_nil _

theorem writes_of_event {n g : Nat} (h : R.event n = .write g) :
    ∃ epoch k row, R.Writes n g epoch k row := by
  obtain ⟨b, epoch, values, k, row, unwritten, hf⟩ := flight_of_write (h ▸ R.next n)
  exact ⟨epoch, k, row, h, b, values, unwritten, hf⟩

theorem writes_eq_nil {n g : Nat} (h : ∀ w < n, R.event w ≠ .write g) : R.writes g n = [] := by
  induction n with
  | zero => rfl
  | succ n ih =>
    rw [writes_succ_of_ne (h n (Nat.lt_succ_self n)), ih fun w hw => h w (Nat.lt_succ_of_lt hw)]

/-- A batch that writes has been answered and has not replied yet. -/
theorem left_write {w g : Nat} (h : R.event w = .write g) :
    1 < u.left (R.state w) g ∧ u.left (R.state w) g < u.config.threshold + 2 := by
  obtain ⟨b, epoch, values, k, row, unwritten, hf⟩ := flight_of_write (h ▸ R.next w)
  have hs := R.sound w
  have hle := hs.unwritten_le g b epoch values _ hf
  have hsize := (hs.flight_size g _ hf).2
  rw [left_of_flight hf, Setup.leftAt]
  simp only [List.length_cons] at hle hsize ⊢
  omega

/-- A flight that goes on writes what it leaves unwritten no longer, and nothing else. -/
theorem records_advance {n : Nat} {f f' : Flight ρ Nat}
    (h : u.Records (R.writes f.generation n) f.stage)
    (hf : (R.state n).loader.flight? f.generation = some f)
    (ha : Advances u (R.state n) (R.event n) f f') :
    u.Records (R.writes f.generation (n + 1)) f'.stage := by
  generalize he : R.event n = ev at ha
  cases ha with
  | asked => exact (writes_succ_of_ne (by rw [he]; nofun)).trans h
  | failed => exact (writes_succ_of_ne (by rw [he]; nofun)).trans h
  | answered =>
    have hnone : R.writes _ (n + 1) = [] := (writes_succ_of_ne (by rw [he]; nofun)).trans h
    exact (congrArg (· ++ _) hnone).trans (List.nil_append _)
  | @written b epoch values unwritten k row =>
    have hwrites : R.Writes n b.generation epoch k row := ⟨he, b, values, unwritten, hf⟩
    show R.writes b.generation (n + 1) ++ unwritten = _
    rw [hwrites.writes_succ, List.append_assoc, List.singleton_append]
    exact h

/-- A flight has written what it has learned, but for what it has still to write. -/
theorem records_of_flight {n g : Nat} {f : Flight ρ Nat} (h : (R.state n).loader.flight? g = some f) :
    u.Records (R.writes g n) f.stage := by
  induction n generalizing f with
  | zero =>
    rw [R.start] at h
    cases h
  | succ n ih =>
    have advance : ∀ {f₀ f'}, (R.state n).loader.flight? g = some f₀ →
        Advances u (R.state n) (R.event n) f₀ f' → u.Records (R.writes g (n + 1)) f'.stage := by
      intro f₀ f' hf₀ hadv
      obtain ⟨-, rfl⟩ := Loader.mem_flights_of_flight? hf₀
      exact records_advance (ih hf₀) hf₀ hadv
    by_cases hev : R.event n = .write g
    · obtain ⟨f₀, f', hf₀, hadv, hnew⟩ := advance_step (R.next n) (by rw [hev]; rfl)
      rw [hnew] at h
      cases h
      exact advance hf₀ hadv
    · rcases flight_step (R.numbered n) (R.next n) g with
        hsame | ⟨b, hclose, rfl, -, hnew⟩ | ⟨f₀, f', hf₀, hadv, hnew⟩ | ⟨-, -, hgone⟩
      · rw [writes_succ_of_ne hev]
        exact ih (hsame ▸ h)
      · rw [hnew] at h
        cases h
        -- A batch that is closed now has not written anything.
        refine writes_eq_nil fun w hw he => ?_
        have hleft := left_write he
        have hopen := left_closes hclose
        have hmono := R.left_mono (Nat.le_of_lt_succ hw) b.generation
        omega
      · rw [hnew] at h
        cases h
        exact advance hf₀ hadv
      · rw [hgone] at h
        cases h

theorem mem_writes {n g : Nat} {k : Key} {v : Option ρ} (h : (k, v) ∈ R.writes g n) :
    ∃ w < n, ∃ epoch, R.Writes w g epoch k v := by
  induction n with
  | zero => cases h
  | succ n ih =>
    have before : (k, v) ∈ R.writes g n → ∃ w < n + 1, ∃ epoch, R.Writes w g epoch k v := by
      intro h
      obtain ⟨w, hw, hwrites⟩ := ih h
      exact ⟨w, Nat.lt_succ_of_lt hw, hwrites⟩
    by_cases he : R.event n = .write g
    · obtain ⟨epoch, k', row, hwrites⟩ := writes_of_event he
      rw [hwrites.writes_succ] at h
      rcases List.mem_append.1 h with h | h
      · exact before h
      · cases List.mem_singleton.1 h
        exact ⟨n, Nat.lt_succ_self n, epoch, hwrites⟩
    · rw [writes_succ_of_ne he] at h
      exact before h

/-- What is written for a batch is what the store has said of one of its keys, under the epoch at which the
store was asked. -/
theorem Writes.source {q t w : Nat} {b : Batch Nat} {rows : List ρ} {epoch : Epoch} {k : Key}
    {v : Option ρ} (h : R.Writes w b.generation epoch k v) (hh : R.Hears q b (.ok rows))
    (ht : R.event t = .ask b.generation) :
    q < w ∧ R.epoch t = epoch ∧ k ∈ b.keys ∧ LastUnder u.entity.key rows k v := by
  obtain ⟨-, b', values, unwritten, hf⟩ := h
  have hg : b'.generation = b.generation := (Loader.mem_flights_of_flight? hf).2
  obtain ⟨t', q', rows', -, hqw, hask, hepoch, hhears, hvalues, hsuffix⟩ := R.flight_source hf
  obtain ⟨rfl, rfl, hrows⟩ := hh.unique hhears hg.symm
  obtain rfl := ask_unique ht hask
  obtain rfl := Except.ok.inj hrows
  have hmem : (k, v) ∈ values := hsuffix.mem List.mem_cons_self
  rw [hvalues] at hmem
  obtain ⟨k', hk', hpair⟩ := List.mem_map.1 hmem
  cases hpair
  exact ⟨hqw, hepoch, hk', lastUnder_iff.2 rfl⟩

/-- When a batch answers, all that the store has said of its keys has been written, key by key. -/
theorem writes_of_reply (hon : u.config.enabled = true) {q r : Nat} {b : Batch Nat} {rows : List ρ}
    (h : R.Hears q b (.ok rows)) (hr : R.event r = .reply b.generation) :
    R.writes b.generation r = b.keys.map fun k => (k, Flight.found? u.entity.key rows k) := by
  obtain ⟨⟨b', stage⟩, hf, hended⟩ := flight_of_reply (hr ▸ R.next r)
  have hg : b'.generation = b.generation := (Loader.mem_flights_of_flight? hf).2
  have hrecords := records_of_flight hf
  have hsource := R.flight_source hf
  cases stage with
  | closed | asked => cases hended
  | answered epoch values unwritten =>
    cases unwritten with
    | cons => cases hended
    | nil =>
      obtain ⟨t, q', rows', -, -, -, -, hhears, hvalues, -⟩ := hsource
      obtain ⟨-, rfl, hrows⟩ := h.unique hhears hg.symm
      obtain rfl := Except.ok.inj hrows
      obtain rfl : values = b.keys.map _ := hvalues
      rw [Setup.Records, List.append_nil, if_pos hon] at hrecords
      exact hrecords
  | failed e =>
    obtain ⟨q', -, hhears⟩ := hsource
    obtain ⟨-, -, hanswer⟩ := h.unique hhears hg.symm
    cases hanswer

/-- A write puts the value under its key while the epoch is that under which it is made, and otherwise
leaves the cache as it is. -/
theorem Writes.cache_succ {w g : Nat} {epoch : Epoch} {k : Key} {v : Option ρ}
    (h : R.Writes w g epoch k v) : (R.state (w + 1)).cache =
      if R.epoch w = epoch then (R.state w).cache.keep (R.state w).clock u.entity k v
      else (R.state w).cache := by
  obtain ⟨he, b, values, unwritten, hf⟩ := h
  have hstep := R.next w
  rw [he] at hstep
  generalize R.state (w + 1) = s' at hstep
  cases step_moves hstep with | write hf' =>
  rw [hf] at hf'
  cases hf'
  show (Cache.setIfCurrent _ _ _ _ _ _).2 = _
  by_cases hepoch : R.epoch w = epoch
  · have hcurrent : (R.state w).cache.isCurrent u.entity.segment epoch = true := decide_eq_true hepoch
    rw [if_pos hepoch, Cache.setIfCurrent, if_pos hcurrent]
    rfl
  · have hstale : ¬ (R.state w).cache.isCurrent u.entity.segment epoch = true :=
      fun h => hepoch (of_decide_eq_true h)
    rw [if_neg hepoch, Cache.setIfCurrent, if_neg hstale]

/-- With the cache off nothing is written. -/
theorem not_writes_of_off (hoff : u.config.enabled = false) (w g : Nat) : R.event w ≠ .write g := by
  intro he
  obtain ⟨b, epoch, values, k, row, unwritten, hf⟩ := flight_of_write (he ▸ R.next w)
  have hrecords := records_of_flight hf
  rw [Setup.Records, hoff, if_neg Bool.false_ne_true] at hrecords
  exact absurd (List.append_eq_nil_iff.1 hrecords).2 (List.cons_ne_nil _ _)

/-! ## The whole -/

variable (R) in
/-- What becomes of the rows with which the store answers a batch. -/
structure MapsBack (q : Nat) (b : Batch Nat) (rows : List ρ) : Prop where
  /-- Those who wait for a key are told of the last row with the key, or that there is none. -/
  informs : R.Informs q b fun k x => ∃ v, x = .ok v ∧ LastUnder u.entity.key rows k v
  /-- A row that nobody has asked for is neither told nor written. -/
  passedOver : ∀ row, u.entity.key row ∉ b.keys →
    (∀ r l, R.event r = .reply b.generation → ¬ R.Answers r l (.ok (some row))) ∧
      ∀ n k, (k, some row) ∉ R.writes b.generation n
  /-- Whatever is written for the batch is written after the store has been heard and before anybody is
  told. -/
  between : ∀ w, R.event w = .write b.generation →
    q < w ∧ ∀ r, R.event r = .reply b.generation → w < r
  /-- With the cache on, when the batch answers, its keys have been written, each once and in order, with
  what those who wait for it are told. -/
  written : u.config.enabled = true → ∀ r, R.event r = .reply b.generation →
    (R.writes b.generation r).map Prod.fst = b.keys ∧
      ∀ k v, (k, v) ∈ R.writes b.generation r → LastUnder u.entity.key rows k v
  /-- A write puts the value under its key, as long as the epoch is the one at which the store was asked;
  after that it leaves the cache as it is. -/
  stored : ∀ t w epoch k v, R.event t = .ask b.generation → R.Writes w b.generation epoch k v →
    (R.state (w + 1)).cache =
      if R.epoch w = R.epoch t then (R.state w).cache.keep (R.state w).clock u.entity k v
      else (R.state w).cache
  /-- So, while the epoch is that one, the cache holds the value under its key after the write, for the time to
  live, and under every other key and in every other segment it holds what it held before. -/
  held : ∀ t w epoch k v, R.event t = .ask b.generation → R.Writes w b.generation epoch k v →
    R.epoch w = R.epoch t → ∀ segment k', (R.state (w + 1)).cache.find? segment k' =
      if segment = u.entity.segment ∧ k' = k then
        some { value := { kind := u.entity.kind, row := v }
               expires := (R.state w).clock + u.config.ttl.toNat }
      else (R.state w).cache.find? segment k'
  /-- The epoch is that one as long as nothing of the segment has been invalidated. -/
  current : ∀ t w, R.event t = .ask b.generation → t ≤ w → R.history.Calm u.entity.segment t w →
    R.epoch w = R.epoch t
  /-- When something has been, nothing is put into the cache for the batch. -/
  overtaken : ∀ t i w op, R.event t = .ask b.generation → t ≤ i → i < w →
    R.history.op i = some op → op.invalidates u.entity.segment = true →
    R.history.invalidations u.entity.segment t w < 2 ^ 64 → R.event w = .write b.generation →
    (R.state (w + 1)).cache = (R.state w).cache
  /-- With the cache off, nothing is written. -/
  off : u.config.enabled = false → ∀ w, R.event w ≠ .write b.generation

/-- Only rows under keys of the batch come of an answer. -/
theorem key_mem_of_lastUnder {rows : List ρ} {keys : List Key} {k : Key} {row : ρ}
    (h : LastUnder u.entity.key rows k (some row)) (hk : k ∈ keys) : u.entity.key row ∈ keys := by
  obtain ⟨before, after, -, rfl, -⟩ := h
  exact hk

theorem owed_iff {rows : List ρ} {k : Key} {x : Loaded ρ} :
    (∃ v, x = .ok v ∧ LastUnder u.entity.key rows k v) ↔ x = Flight.result u.entity.key (.ok rows) k := by
  simp only [lastUnder_iff]
  constructor
  · rintro ⟨v, rfl, rfl⟩
    rfl
  · rintro rfl
    exact ⟨_, rfl, rfl⟩

/-- The rows with which the store answers find their way back to the keys. -/
theorem Hears.mapsBack {q : Nat} {b : Batch Nat} {rows : List ρ} (h : R.Hears q b (.ok rows)) :
    R.MapsBack q b rows := by
  obtain ⟨t, htq, ht⟩ := h.asked
  have hinforms := h.informs fun _ _ => owed_iff
  exact {
    informs := hinforms
    passedOver := by
      intro row hrow
      constructor
      · intro r l hr hanswer
        obtain ⟨-, k, hw, v, hv, hlast⟩ := ((hinforms.told r hr).2 l _).1 hanswer
        cases hv
        exact hrow (key_mem_of_lastUnder hlast (Batch.mem_keys.2 ⟨l, hw⟩))
      · intro n k hmem
        obtain ⟨w, -, epoch, hwrites⟩ := mem_writes hmem
        obtain ⟨-, -, hk, hlast⟩ := hwrites.source h ht
        exact hrow (key_mem_of_lastUnder hlast hk)
    between := by
      intro w hw
      obtain ⟨epoch, k, v, hwrites⟩ := writes_of_event hw
      refine ⟨(hwrites.source h ht).1, fun r hr => ?_⟩
      have hwleft := left_write hw
      have hrleft := left_reply hr
      by_contra hle
      have hmono := R.left_mono (Nat.le_of_not_lt hle) b.generation
      omega
    written := by
      intro hon r hr
      rw [writes_of_reply hon h hr, List.map_map]
      refine ⟨List.map_id b.keys, fun k v hmem => ?_⟩
      obtain ⟨k', -, hpair⟩ := List.mem_map.1 hmem
      cases hpair
      exact lastUnder_iff.2 rfl
    stored := by
      intro t' w epoch k v ht' hwrites
      obtain ⟨-, hepoch, -⟩ := hwrites.source h ht'
      rw [hepoch]
      exact hwrites.cache_succ
    held := by
      intro t' w epoch k v ht' hwrites hcurrent segment k'
      obtain ⟨-, hepoch, -⟩ := hwrites.source h ht'
      rw [hwrites.cache_succ, if_pos (hcurrent.trans hepoch), RowCache.keep, Cache.find?_set, R.ttl_cache]
    current := fun t' w _ htw hcalm => R.history.epoch_eq_of_calm _ htw hcalm
    overtaken := by
      intro t' i w op ht' hti hiw hop hinv hfew hw
      obtain ⟨epoch, k, v, hwrites⟩ := writes_of_event hw
      obtain ⟨-, rfl, -⟩ := hwrites.source h ht'
      rw [hwrites.cache_succ, if_neg]
      intro hepoch
      have hcalm := R.history.calm_of_epoch_eq _ (by omega) hfew hepoch
      rw [hcalm i hti hiw op hop] at hinv
      cases hinv
    off := fun hoff w => not_writes_of_off hoff w _ }

end Run

/-- The store may answer with whatever rows it likes, and what it answers is mapped back to the keys of the
batch. -/
theorem mapping (R : Run u) :
    (∀ n b epoch rows, (R.state n).loader.flight? b.generation =
      some { batch := b, stage := .asked epoch } →
      (u.step (R.state n) (.settle b.generation (.ok rows))).isSome) ∧
    ∀ q b rows, R.Hears q b (.ok rows) → R.MapsBack q b rows := by
  refine ⟨fun n b epoch rows hf => ?_, fun q b rows h => h.mapsBack⟩
  rw [Setup.step, hf]
  rfl

/-! ## A run -/

/-- Two rows for the first category, none for the second, and one that nobody has asked for. -/
def unrulyRows : List Newsroom.Item :=
  [.category { id := 1, name := "old" }, .category { id := 3, name := "arts" },
    .category { id := 1, name := "news" }]

/-- Two categories are loaded, one of them twice. -/
def unrulyAnswer : List (Event Newsroom.Item) :=
  [.begin (.int 1), .begin (.int 2), .begin (.int 1), .join 0, .join 1, .join 2, .sleep 0, .pass 5,
    .fire 0, .ask 0, .settle 0 (.ok unrulyRows), .write 0, .write 0, .reply 0]

/-- The last row of the first category counts, and the row of the third goes nowhere. -/
theorem mapping_unruly :
    ∃ (R : Run (newsroom 5)) (b : Batch Nat), R.Hears 10 b (.ok unrulyRows) ∧
      R.Answers 13 0 (.ok (some (.category { id := 1, name := "news" }))) ∧
      R.Answers 13 2 (.ok (some (.category { id := 1, name := "news" }))) ∧ R.Answers 13 1 (.ok none) ∧
      R.epoch 11 = R.epoch 9 ∧ (R.writes 0 13).map Prod.fst = [.int 1, .int 2] ∧
      ((R.state 12).cache.find? "Category" (.int 1)).map (·.value.row) =
        some (some (.category { id := 1, name := "news" })) ∧
      ∀ n k, (k, some (.category { id := 3, name := "arts" })) ∉ R.writes 0 n := by
  let R : Run (newsroom 5) := .ofEvents (.pass 0) (pass_zero _) unrulyAnswer (by decide +kernel)
  let b : Batch Nat := { generation := 0, waiting := [(.int 1, 0), (.int 2, 1), (.int 1, 2)] }
  have hhears : R.Hears 10 b (.ok unrulyRows) := ⟨rfl, ⟨0, 0⟩, by decide +kernel⟩
  have hmaps := (mapping R).2 10 b unrulyRows hhears
  have htold := (hmaps.informs.told 13 rfl).2
  have hstay : ∀ l, l ∉ (R.state 13).dropped := fun _ => nofun
  have hnews : LastUnder Newsroom.categories.key unrulyRows (.int 1)
      (some (.category { id := 1, name := "news" })) := lastUnder_iff.2 (by decide)
  have hnone : LastUnder Newsroom.categories.key unrulyRows (.int 2) none :=
    lastUnder_iff.2 (by decide)
  have hcalm : R.history.Calm (newsroom 5).entity.segment 9 11 := by
    intro n h1 h2 op hop
    interval_cases n <;> cases hop
  have hcurrent := hmaps.current 9 11 rfl (by decide) hcalm
  have hwrites : R.Writes 11 0 ⟨0, 0⟩ (.int 1) (some (.category { id := 1, name := "news" })) :=
    ⟨rfl, b, [(.int 1, some (.category { id := 1, name := "news" })), (.int 2, none)], [(.int 2, none)],
      by decide +kernel⟩
  have hheld := hmaps.held 9 11 ⟨0, 0⟩ _ _ rfl hwrites hcurrent "Category" (.int 1)
  refine ⟨R, b, hhears, ?_, ?_, ?_, hcurrent, ?_, ?_, ?_⟩
  · exact (htold 0 _).2 ⟨hstay 0, .int 1, by decide, _, rfl, hnews⟩
  · exact (htold 2 _).2 ⟨hstay 2, .int 1, by decide, _, rfl, hnews⟩
  · exact (htold 1 _).2 ⟨hstay 1, .int 2, by decide, _, rfl, hnone⟩
  · exact (hmaps.written rfl 13 rfl).1
  · rw [hheld, if_pos ⟨rfl, rfl⟩]
    rfl
  · exact (hmaps.passedOver (.category { id := 3, name := "arts" }) (by decide)).2

end Service

end ReadThrough
