import Mathlib.Tactic.IntervalCases
import ReadThrough.Proofs.Cache.Expiry
import ReadThrough.Proofs.Service.Batching
import ReadThrough.Proofs.Store.Table
/-!
# How old an answer can be

A service that hears of no changes still does not answer with what is too old. What is in its cache was
read from the store some time after the epoch was noted under which it was written (`Run.entry_delivered`); it
was written in due time, and it expires when the time to live has passed since then, whoever looks at it.
So what a load is told, the store has had when the load began, or later, or for less than the time to live
and the time for fetching before (`bounded_staleness`).
-/

namespace ReadThrough.Service

variable {ρ ω : Type} {u : Setup ρ}

/-- How long a batch waits for the store, if others are answered within some time. -/
def Setup.patience (u : Setup ρ) (D : Nat) : Nat := u.config.fetchTimeout.elim D UInt64.toNat

/-- An entry that a load finds is not expired. -/
theorem lt_expires_of_look {s : Service ρ} {k : Key} {v : Option ρ} {x : Entry (Held ρ)}
    (h : (u.look s k).1 = some v) (hx : s.cache.find? u.entity.segment k = some x) :
    s.clock < x.expires := by
  rw [Setup.look] at h
  split at h
  · rw [RowCache.look, Cache.get, hx] at h
    split at h
    · cases h
    · rename_i y hy
      obtain rfl := Option.some.inj hy
      split at h
      · cases h
      · rename_i hlive
        simpa [Entry.expired] using hlive
  · cases h

/-- A load that comes upon an entry that is not expired leaves it there, and reads it only if it is of the
service's rows. -/
theorem look_of_not_expired {s : Service ρ} (hon : u.config.enabled = true) {k : Key} {x : Entry (Held ρ)}
    (hx : s.cache.find? u.entity.segment k = some x) (hlive : x.expired s.clock = false) :
    u.look s k = (Held.read u.entity.kind x.value, s.cache) := by
  rw [Setup.look, if_pos hon]
  exact Cache.get_of_not_expired hx hlive _

namespace Run

variable (R : Run u)

/-- What the store says it has had, all at once, at a moment between being asked and answering. Nobody tells
the service when it changes. -/
structure Backed (T : Nat → Table ρ ω) : Prop where
  keyed : ∀ m, (T m).WellKeyed u.entity
  batch : ∀ t q b rows, R.event t = .ask b.generation → R.Hears q b (.ok rows) →
    ∃ m, t ≤ m ∧ m ≤ q ∧ rows = (T m).findByIds b.keys
  page : ∀ t q p rows, R.event t = .note → (R.state t).pageCount = p → R.event q = .read p rows →
    ∃ m o, t ≤ m ∧ m ≤ q ∧ (T m).findMany u.entity o = .ok rows

/-- The store answers, or its answer is no longer waited for, within some time after the epoch has been
noted; and what it says is written at once. -/
structure Timely (D : Nat) : Prop where
  limit : ∀ ms ∈ u.config.fetchTimeout, ms.toNat ≤ D
  batch : ∀ t q g answer, R.event t = .ask g → R.event q = .settle g answer →
    (R.state q).clock ≤ (R.state t).clock + u.patience D
  page : ∀ t q p rows, R.event t = .note → (R.state t).pageCount = p → R.event q = .read p rows →
    (R.state q).clock ≤ (R.state t).clock + D
  written : ∀ q n g answer, R.event q = .settle g answer → R.event n = .write g →
    (R.state n).clock = (R.state q).clock
  primed : ∀ q n p rows, R.event q = .read p rows → R.event n = .prime p →
    (R.state n).clock = (R.state q).clock

variable {R}

/-! ## What is fetched -/

/-- What is fetched under a key the store has had, between being asked and being heard. -/
theorem Backed.moment {T : Nat → Table ρ ω} (hT : R.Backed T) {t q : Nat} {k : Key} {v : Option ρ}
    (h : R.Delivers t q k v) : ∃ m, t ≤ m ∧ m ≤ q ∧ (T m).get? k = v := by
  cases h with
  | batch b rows asked heard mem value =>
    obtain ⟨m, htm, hmq, rfl⟩ := hT.batch t q b rows asked heard
    exact ⟨m, htm, hmq, ((hT.keyed m).found?_findByIds mem).symm.trans value.symm⟩
  | page p rows row noted number delivered mem key value =>
    obtain ⟨m, o, htm, hmq, hrows⟩ := hT.page t q p rows noted number delivered
    have hrow := (hT.keyed m).get?_of_findMany hrows mem
    rw [key] at hrow
    exact ⟨m, htm, hmq, hrow.trans value.symm⟩

theorem Timely.patience_le {D : Nat} (hD : R.Timely D) : u.patience D ≤ D := by
  unfold Setup.patience
  cases h : u.config.fetchTimeout with
  | none => exact Nat.le_refl D
  | some ms => exact hD.limit ms h

/-- What is fetched is written within the time for fetching after the epoch has been noted. -/
theorem Timely.clock_le {D : Nat} (hD : R.Timely D) {t q w : Nat} {k : Key} {v : Option ρ}
    (huse : R.Uses t w) (h : R.Delivers t q k v) : (R.state w).clock ≤ (R.state t).clock + D := by
  have hpatience := hD.patience_le
  cases h with
  | batch b rows asked heard =>
    cases huse with
    | batch g hask hwrite =>
      obtain rfl : b.generation = g := Event.ask.inj (asked.symm.trans hask)
      have hsettle := hD.batch t q _ _ asked heard.1
      have hwritten := hD.written q w _ _ heard.1 hwrite
      omega
    | page p hnote => exact absurd (asked.symm.trans hnote) nofun
  | page p rows row noted number delivered =>
    cases huse with
    | batch g hask => exact absurd (noted.symm.trans hask) nofun
    | page p' _ hnumber hprime =>
      obtain rfl : p = p' := number.symm.trans hnumber
      have hread := hD.page t q p rows noted number delivered
      have hprimed := hD.primed q w p rows delivered hprime
      omega

/-! ## What is in the cache -/

variable (R)

theorem ttl_cache (n : Nat) : (R.state n).cache.ttl = u.config.ttl := by
  induction n with
  | zero =>
    rw [R.start]
    rfl
  | succ n ih =>
    rw [cache_step (R.next n), ← ih]
    cases u.op? (R.state n) (R.event n) with
    | none => rfl
    | some op => exact Cache.ttl_apply op _ _

/-- An entry has been there before, or it has been stored by the last step and expires when the time to live
has passed. -/
theorem entry_step {n : Nat} {k : Key} {x : Entry (Held ρ)}
    (h : (R.state (n + 1)).cache.find? u.entity.segment k = some x) :
    (R.state n).cache.find? u.entity.segment k = some x ∨
      (R.history.stored? u.entity.segment k n = some x.value ∧
        x.expires = (R.state n).clock + u.config.ttl.toNat) := by
  have hstep : (R.state (n + 1)).cache.find? u.entity.segment k = _ :=
    R.history.find?_succ n
  rw [h] at hstep
  cases hstored : R.history.stored? u.entity.segment k n with
  | some v =>
    rw [hstored] at hstep
    obtain rfl := Option.some.inj hstep
    refine .inr ⟨rfl, ?_⟩
    show (R.state n).clock + (R.state n).cache.ttl.toNat = _
    rw [R.ttl_cache n]
  | none =>
    -- Nothing has been stored, so the entry is the old one if there still is one.
    rw [hstored] at hstep
    refine .inl ?_
    simp only [Option.elim] at hstep
    split at hstep
    · cases hstep
    · split at hstep
      · exact (Option.filter_eq_some_iff.1 hstep.symm).1
      · exact hstep.symm

/-- What is in the cache of the service's rows has been delivered and written, and expires when the time to
live has passed since it was written. -/
theorem entry_delivered {n : Nat} {k : Key} {x : Entry (Held ρ)}
    (h : (R.state n).cache.find? u.entity.segment k = some x) (hx : x.value.kind = u.entity.kind) :
    ∃ t q w, q < w ∧ w < n ∧ R.Uses t w ∧ R.Delivers t q k x.value.row ∧
      x.expires = (R.state w).clock + u.config.ttl.toNat := by
  induction n with
  | zero =>
    rw [R.start] at h
    cases h
  | succ n ih =>
    rcases R.entry_step h with hold | ⟨hstored, hexpires⟩
    · obtain ⟨t, q, w, hqw, hwn, hrest⟩ := ih hold
      exact ⟨t, q, w, hqw, Nat.lt_succ_of_lt hwn, hrest⟩
    · obtain ⟨op, hop, hstored⟩ := Option.bind_eq_some_iff.1 hstored
      rw [Cache.Op.stored?] at hstored
      split at hstored
      · obtain ⟨t, q, huse, -, hqn, hdelivers, -⟩ := R.store_source hop hstored hx
        exact ⟨t, q, n, hqn, Nat.lt_succ_self n, huse, hdelivers, hexpires⟩
      · cases hstored

variable {R}

/-! ## Answers -/

/-- A load that finds its key in the cache finds what was delivered, and written less than the time to live
ago. -/
theorem delivers_of_hit {b : Nat} {k : Key} {v : Option ρ} (h : (u.look (R.state b) k).1 = some v) :
    ∃ t q w, q < w ∧ w < b ∧ R.Uses t w ∧ R.Delivers t q k v ∧
      (R.state b).clock < (R.state w).clock + u.config.ttl.toNat := by
  obtain ⟨x, hx, hvalue⟩ := find?_of_look h
  have hlive := lt_expires_of_look h hx
  obtain ⟨t, q, w, hqw, hwb, huse, hdelivers, hexpires⟩ := R.entry_delivered hx (by rw [hvalue])
  rw [hvalue] at hdelivers
  exact ⟨t, q, w, hqw, hwb, huse, hdelivers, hexpires ▸ hlive⟩

/-- A load that finds its key in the cache is told what the store has had for less than the time to live and
the time for fetching. -/
theorem moment_of_hit {T : Nat → Table ρ ω} (hT : R.Backed T) {D : Nat} (hD : R.Timely D) {b : Nat} {k : Key}
    {v : Option ρ} (h : (u.look (R.state b) k).1 = some v) :
    ∃ m < b, (T m).get? k = v ∧
      (R.state b).clock < (R.state m).clock + (u.config.ttl.toNat + D) := by
  obtain ⟨t, q, w, hqw, hwb, huse, hdelivers, hlive⟩ := delivers_of_hit h
  obtain ⟨m, htm, hmq, hm⟩ := hT.moment hdelivers
  refine ⟨m, by omega, hm, ?_⟩
  have hwritten := hD.clock_le huse hdelivers
  have hclock := R.clock_mono htm
  omega

/-- A load that does not find its key in the cache is told what is delivered after it began. -/
theorem delivers_of_miss {b r l : Nat} {k : Key} {v : Option ρ} (hb : R.Begins b l k)
    (hmiss : (u.look (R.state b) k).1 = none) (hr : R.Answers r l (.ok v)) :
    ∃ t q, b < t ∧ t < q ∧ q < r ∧ R.Delivers t q k v := by
  obtain ⟨j, q, batch, answer, hbj, hjq, hqr, hjoins, hhears, hvalue⟩ := heard_of_answers hb hmiss hr
  obtain ⟨t, htq, hask⟩ := Hears.asked R hhears
  have hjt := hjoins.lt_ask hask
  have hmem : k ∈ batch.keys := by
    obtain ⟨epoch, hf⟩ := hhears.2
    have hwaiting := waiting_eq (Loader.batch?_of_flight? (R.numbered q) hf)
    refine Batch.mem_keys.2 ⟨l, ?_⟩
    rw [hwaiting]
    exact mem_joined.2 ⟨j, hjq, hjoins⟩
  cases answer with
  | error e => cases hvalue
  | ok rows =>
    exact ⟨t, q, Nat.lt_trans hbj hjt, htq, hqr,
      .batch batch rows hask hhears hmem (Except.ok.inj hvalue)⟩

/-- A load that does not find its key in the cache is told what the store has had after it began. -/
theorem moment_of_miss {T : Nat → Table ρ ω} (hT : R.Backed T) {b r l : Nat} {k : Key} {v : Option ρ}
    (hb : R.Begins b l k) (hmiss : (u.look (R.state b) k).1 = none) (hr : R.Answers r l (.ok v)) :
    ∃ m, b < m ∧ m < r ∧ (T m).get? k = v := by
  obtain ⟨t, q, hbt, -, hqr, hdelivers⟩ := delivers_of_miss hb hmiss hr
  obtain ⟨m, htm, hmq, hm⟩ := hT.moment hdelivers
  exact ⟨m, by omega, by omega, hm⟩

/-- What a load is told of a row has been learned before. -/
theorem learns_of_answers {b r l : Nat} {k : Key} {v : Option ρ} (hb : R.Begins b l k)
    (hr : R.Answers r l (.ok v)) : ∃ q < r, R.Learns q k v := by
  cases hlook : (u.look (R.state b) k).1 with
  | none =>
    obtain ⟨t, q, -, -, hqr, hdelivers⟩ := delivers_of_miss hb hlook hr
    exact ⟨q, hqr, hdelivers.learns⟩
  | some v' =>
    obtain ⟨rfl, hv⟩ := answers_of_hit hb hlook hr
    obtain rfl := Except.ok.inj hv
    obtain ⟨t, q, w, hqw, hwr, -, hdelivers, -⟩ := delivers_of_hit hlook
    exact ⟨q, Nat.lt_trans hqw hwr, hdelivers.learns⟩

end Run

/-- What a load is told of a row, the store has had after the load began; or, if the cache is on, for less
than the time to live and the time for fetching before, whatever has changed since without the service
hearing of it. And an entry of the cache that is not stored by a step is as old as it was, and expires when
it would have expired. -/
theorem bounded_staleness {R : Run u} {T : Nat → Table ρ ω} (hT : R.Backed T) {D : Nat}
    (hD : R.Timely D) :
    (∀ b r l k v, R.Begins b l k → R.Answers r l (.ok v) → ∃ m < r, (T m).get? k = v ∧
      (b < m ∨ u.config.enabled = true ∧
        (R.state b).clock < (R.state m).clock + (u.config.ttl.toNat + D))) ∧
    ∀ n k x, (R.state (n + 1)).cache.find? u.entity.segment k = some x →
      (R.state n).cache.find? u.entity.segment k = some x ∨
        R.history.stored? u.entity.segment k n = some x.value ∧
          x.expires = (R.state n).clock + u.config.ttl.toNat := by
  refine ⟨?_, fun n k x => R.entry_step⟩
  intro b r l k v hb hr
  cases hlook : (u.look (R.state b) k).1 with
  | none =>
    obtain ⟨m, hbm, hmr, hm⟩ := Run.moment_of_miss hT hb hlook hr
    exact ⟨m, hmr, hm, .inl hbm⟩
  | some v' =>
    obtain ⟨rfl, hv⟩ := Run.answers_of_hit hb hlook hr
    obtain rfl := Except.ok.inj hv
    obtain ⟨m, hm, hhad, hbound⟩ := Run.moment_of_hit hT hD hlook
    have henabled : u.config.enabled = true := by
      by_contra hoff
      rw [Setup.look, if_neg hoff] at hlook
      cases hlook
    exact ⟨m, hm, hhad, .inr ⟨henabled, hbound⟩⟩

/-! ## A run -/

/-- A category is loaded, and loaded again from the cache a second later. -/
def loadedTwice : List (Event Newsroom.Item) :=
  [.begin (.int 1), .join 0, .sleep 0, .pass 20, .fire 0, .ask 0, .pass 5,
    .settle 0 (.ok [.category { id := 1, name := "news" }]), .write 0, .reply 0, .pass 1000, .begin (.int 1)]

/-- The table of the categories, in which the category is renamed while the store is asked for it. -/
def renamedMeanwhile (n : Nat) : Table Newsroom.Item Unit :=
  .ofRows Newsroom.categories [.category { id := 1, name := if n ≤ 6 then "news" else "sports" }]

/-- The run in which the category is loaded twice. -/
def loadedTwiceRun : Run (newsroom 20) :=
  .ofEvents (.pass 0) (pass_zero _) loadedTwice (by decide +kernel)

/-- In the run one batch is asked for, heard and written, and there are no pages. -/
theorem loadedTwiceRun_event (n : Nat) :
    match loadedTwiceRun.event n with
    | .ask g => n = 5 ∧ g = 0
    | .settle _ answer => n = 7 ∧ answer = .ok [.category { id := 1, name := "news" }]
    | .write _ => n = 8
    | .note | .read _ _ => False
    | _ => True := by
  by_cases hn : n < 12
  · interval_cases n <;> trivial
  · have hquiet : loadedTwiceRun.event n = .pass 0 := List.getD_eq_default _ _ (Nat.le_of_not_lt hn)
    rw [hquiet]
    trivial

theorem backed_loadedTwiceRun : loadedTwiceRun.Backed renamedMeanwhile where
  keyed m := Table.wellKeyed_ofRows _ _
  batch := by
    rintro t q b rows hask ⟨hsettle, epoch, hf⟩
    have ht := loadedTwiceRun_event t
    have hq := loadedTwiceRun_event q
    rw [hask] at ht
    rw [hsettle] at hq
    obtain ⟨rfl, hg⟩ := ht
    obtain ⟨rfl, hrows⟩ := hq
    obtain rfl := Except.ok.inj hrows
    rw [hg] at hf
    cases hf
    exact ⟨6, by decide, by decide, by decide +kernel⟩
  page := by
    intro t q p rows hnote
    have ht := loadedTwiceRun_event t
    rw [hnote] at ht
    exact ht.elim

theorem timely_loadedTwiceRun : loadedTwiceRun.Timely 5 where
  limit := nofun
  batch := by
    intro t q g answer hask hsettle
    have ht := loadedTwiceRun_event t
    have hq := loadedTwiceRun_event q
    rw [hask] at ht
    rw [hsettle] at hq
    rw [ht.1, hq.1]
    decide +kernel
  page := by
    intro t q p rows hnote
    have ht := loadedTwiceRun_event t
    rw [hnote] at ht
    exact ht.elim
  written := by
    intro q n g answer hsettle hwrite
    have hq := loadedTwiceRun_event q
    have hn := loadedTwiceRun_event n
    rw [hsettle] at hq
    rw [hwrite] at hn
    rw [hn, hq.1]
    decide +kernel
  primed := by
    intro q n p rows hread
    have hq := loadedTwiceRun_event q
    rw [hread] at hq
    exact hq.elim

/-- The second load is told the old name, which the store has had for less than the time to live and five
milliseconds before. -/
theorem bounded_staleness_renamed :
    loadedTwiceRun.Backed renamedMeanwhile ∧ loadedTwiceRun.Timely 5 ∧
      loadedTwiceRun.Begins 11 1 (.int 1) ∧
      (renamedMeanwhile 11).get? (.int 1) = some (.category { id := 1, name := "sports" }) ∧
      loadedTwiceRun.Answers 11 1 (.ok (some (.category { id := 1, name := "news" }))) ∧
      ∃ m < 11, (renamedMeanwhile m).get? (.int 1) = some (.category { id := 1, name := "news" }) ∧
        (11 < m ∨ (newsroom 20).config.enabled = true ∧ (loadedTwiceRun.state 11).clock <
          (loadedTwiceRun.state m).clock + ((newsroom 20).config.ttl.toNat + 5)) := by
  have hbegins : loadedTwiceRun.Begins 11 1 (.int 1) := ⟨rfl, by decide +kernel⟩
  have hanswers : loadedTwiceRun.Answers 11 1 (.ok (some (.category { id := 1, name := "news" }))) := by
    show _ ∈ _
    decide +kernel
  have hbounded := (bounded_staleness backed_loadedTwiceRun timely_loadedTwiceRun).1 11 11 1 (.int 1) _
    hbegins hanswers
  exact ⟨backed_loadedTwiceRun, timely_loadedTwiceRun, hbegins, by decide +kernel, hanswers, hbounded⟩

end ReadThrough.Service
