import ReadThrough.Proofs.Service.Staleness
/-!
# How caching spares the store

A service whose cache is on, and which has its segment to itself, does not ask for what it knows. It asks
the store for the keys of loads that have found nothing live in the cache. And when all that the store has
said to a batch has been written, without an invalidation of the segment since the epoch was noted, no load
of one of its keys asks the store again before the time to live has passed, unless the key is taken away
(`sparing`).

What a flight has been told it writes key by key (`Run.written_of_flight`). Every such write is accepted as
long as the segment is left in peace, and something is kept under the key from then on, whoever writes it
again (`Cache.History.exists_kept`). Deleting other keys moves the epoch and takes away nothing of it.
-/

namespace ReadThrough.Service

variable {ρ : Type} {u : Setup ρ}

namespace Run

variable (R : Run u)

/-- The service has its segment to itself: nobody else puts anything there. -/
def Sole : Prop :=
  ∀ n op k, R.event n = .touch op → op.stores? u.entity.segment k = none

/-- One key of a flight is written at a step, under the epoch that the flight remembers. -/
def Writes (w g : Nat) (epoch : Epoch) (k : Key) (row : Option ρ) : Prop :=
  R.event w = .write g ∧ ∃ b values unwritten, (R.state w).loader.flight? g =
    some { batch := b, stage := .answered epoch values ((k, row) :: unwritten) }

/-- The store is asked for the keys of a batch at a step, and by another step it has answered and all that it
has said has been written, from some moment on. In between nothing of the segment is invalidated. -/
structure Completes (t m g : Nat) (b : Batch Nat) (c : Nat) : Prop where
  asked : R.event t = .ask g
  written : ∃ epoch values, (R.state m).loader.flight? g =
    some { batch := b, stage := .answered epoch values [] }
  moment : ∀ w, R.event w = .write g → c ≤ (R.state w).clock
  calm : R.history.Calm u.entity.segment t m

/-- All that is done to the service's cache. -/
def lifetime : Cache.Lifetime (Held ρ) where
  toHistory := R.history
  ttl := u.config.ttl
  fresh := congrArg Service.cache R.start
  mono := fun _ _ => R.clock_mono

variable {R}

/-! ## What the cache knows -/

theorem does_eq_false {p : Cache.Op (Held ρ) → Bool} {n : Nat}
    (h : ∀ op, R.history.op n = some op → p op = false) : R.lifetime.does p n = false := by
  show (R.history.op n).any p = false
  cases hop : R.history.op n with
  | none => rfl
  | some op => exact h op hop

/-- What is stored in the segment of a service that has it to itself is a row of the service. -/
theorem Sole.kind_of_stored (hS : R.Sole) {n : Nat} {k : Key} {v : Held ρ}
    (h : R.lifetime.stored? u.entity.segment k n = some v) : v.kind = u.entity.kind := by
  obtain ⟨op, hop, hstored⟩ := Option.bind_eq_some_iff.1 h
  rw [Cache.Op.stored?] at hstored
  split at hstored
  · have hop : u.op? (R.state n) (R.event n) = some op := hop
    rcases op?_cases hop with ⟨k', rfl⟩ | ⟨k', row, epoch, rfl⟩ | he
    · cases hstored
    · simp only [Cache.Op.stores?] at hstored
      split at hstored <;> cases hstored
      rfl
    · rw [hS n op k he] at hstored
      cases hstored
  · cases hstored

/-- A load finds what is live. -/
theorem Sole.look_of_live (hS : R.Sole) (hon : u.config.enabled = true) {n : Nat} {k : Key} {v : Held ρ}
    (h : R.lifetime.Live u.entity.segment k n v) : (u.look (R.state n) k).1 = some v.row := by
  obtain ⟨m, hkept, -⟩ := id h
  obtain ⟨x, hx, hlive, rfl⟩ := Cache.Lifetime.live_iff.1 h
  rw [look_of_not_expired hon hx hlive]
  exact if_pos (hS.kind_of_stored hkept.stored)

/-- A load of which the cache knows nothing has found no entry that was not expired. -/
theorem Sole.expired_of_look (hS : R.Sole) (hon : u.config.enabled = true) {n : Nat} {k : Key}
    (hmiss : (u.look (R.state n) k).1 = none) {x : Entry (Held ρ)}
    (hx : (R.state n).cache.find? u.entity.segment k = some x) :
    x.expired (R.state n).clock = true := by
  by_contra hlive
  have hlive : R.lifetime.Live u.entity.segment k n x.value :=
    Cache.Lifetime.live_iff.2 ⟨x, hx, Bool.eq_false_of_not_eq_true hlive, rfl⟩
  rw [hS.look_of_live hon hlive] at hmiss
  cases hmiss

/-- Something is live under a key from a step on at which something is stored there, until the time to live
has passed, unless somebody takes it away. -/
theorem live_of_stored {w n : Nat} {k : Key} {v : Held ρ}
    (hstored : R.lifetime.stored? u.entity.segment k w = some v) (hwn : w < n)
    (hspared : R.Spares (w + 1) n k)
    (hclock : (R.state n).clock < (R.state w).clock + u.config.ttl.toNat) :
    ∃ v', R.lifetime.Live u.entity.segment k n v' := by
  obtain ⟨m, v', hwm, hkept⟩ := Cache.History.exists_kept hstored hwn
    fun i hwi hin => does_eq_false (hspared i hwi hin)
  have hmono := R.clock_mono hwm
  refine ⟨v', m, hkept, ?_⟩
  show (R.state n).clock < (R.state m).clock + u.config.ttl.toNat
  omega

/-- A load of a key under which something is live is answered at once and joins no batch. -/
theorem Sole.spared_of_live (hS : R.Sole) (hon : u.config.enabled = true) {n l : Nat} {k : Key}
    (hb : R.Begins n l k) {v : Held ρ} (h : R.lifetime.Live u.entity.segment k n v) :
    R.Answers n l (.ok v.row) ∧ ∀ j, R.event j ≠ .join l := by
  have hlook := hS.look_of_live hon h
  constructor
  · show (l, .ok v.row) ∈ u.answers (R.state n) (R.event n)
    rw [hb.1, Setup.answers, hlook, hb.2]
    exact List.mem_singleton.2 rfl
  · intro j hj
    obtain ⟨k', hmissed⟩ := missed_of_join (hj ▸ R.next j)
    obtain ⟨b, -, hbegin, hmiss⟩ := R.began_of_missed hmissed
    obtain ⟨rfl, rfl⟩ := hb.unique hbegin
    rw [hlook] at hmiss
    cases hmiss

/-! ## What a batch writes -/

/-- What a flight has been told it has still to write, or has written. -/
theorem written_of_flight (hon : u.config.enabled = true) {n g : Nat} {b : Batch Nat} {epoch : Epoch}
    {values unwritten : List (Key × Option ρ)}
    (h : (R.state n).loader.flight? g = some { batch := b, stage := .answered epoch values unwritten })
    {k : Key} {row : Option ρ} (hmem : (k, row) ∈ values) :
    (k, row) ∈ unwritten ∨ ∃ w < n, R.Writes w g epoch k row := by
  induction n generalizing unwritten with
  | zero =>
    rw [R.start] at h
    cases h
  | succ n ih =>
    have before : ∀ {unwritten},
        (R.state n).loader.flight? g = some { batch := b, stage := .answered epoch values unwritten } →
        (k, row) ∈ unwritten ∨ ∃ w < n + 1, R.Writes w g epoch k row := by
      intro unwritten hn
      rcases ih hn with hleft | ⟨w, hw, hwrites⟩
      · exact .inl hleft
      · exact .inr ⟨w, Nat.lt_succ_of_lt hw, hwrites⟩
    rcases flight_step (R.numbered n) (R.next n) g with
      hsame | ⟨b', -, -, -, hnew⟩ | ⟨f, f', hf, hadv, hnew⟩ | ⟨-, -, hgone⟩
    · exact before (hsame ▸ h)
    · rw [hnew] at h
      cases h
    · rw [hnew] at h
      cases h
      generalize he : R.event n = ev at hadv
      cases hadv with
      -- The store has just answered, and nothing has been written yet.
      | answered => exact .inl (by rwa [if_pos hon])
      | @written _ _ _ _ k' row' =>
        obtain ⟨-, rfl⟩ := Loader.mem_flights_of_flight? hf
        rcases before hf with hleft | hwritten
        · rcases List.mem_cons.1 hleft with heq | hleft
          · cases heq
            exact .inr ⟨n, Nat.lt_succ_self n, he, _, _, _, hf⟩
          · exact .inl hleft
        · exact .inr hwritten
    · rw [hgone] at h
      cases h

/-- What is written while the epoch is that of the cache is stored. -/
theorem Writes.stored {w g : Nat} {epoch : Epoch} {k : Key} {row : Option ρ}
    (h : R.Writes w g epoch k row) (hepoch : R.epoch w = epoch) :
    R.lifetime.stored? u.entity.segment k w = some { kind := u.entity.kind, row } := by
  obtain ⟨he, b, values, unwritten, hf⟩ := h
  have hop : R.history.op w =
      some (.setIfCurrent u.entity.segment k { kind := u.entity.kind, row } epoch) := by
    show u.op? (R.state w) (R.event w) = _
    rw [he, Setup.op?, Loader.write?, hf]
    rfl
  have htakes : (R.state w).cache.isCurrent u.entity.segment epoch = true := decide_eq_true hepoch
  show (R.history.op w).bind _ = _
  rw [hop]
  show Cache.Op.stored? (R.state w).cache _ _ _ = _
  simp [Cache.Op.stored?, Cache.Op.takes, Cache.Op.stores?, htakes]

/-- A completed batch has stored something under each of its keys: the row, or that there is none. -/
theorem Completes.stored (hon : u.config.enabled = true) {t m g c : Nat} {b : Batch Nat}
    (h : R.Completes t m g b c) {k : Key} (hk : k ∈ b.keys) :
    ∃ w v, t < w ∧ w < m ∧ c ≤ (R.state w).clock ∧
      R.lifetime.stored? u.entity.segment k w = some v := by
  obtain ⟨epoch, values, hf⟩ := h.written
  obtain ⟨-, q, rows, -, -, -, -, -, hvalues, -⟩ := R.flight_source hf
  obtain rfl : values = b.keys.map _ := hvalues
  have hmem := List.mem_map_of_mem (f := fun k => (k, Flight.found? u.entity.key rows k)) hk
  rcases written_of_flight hon hf hmem with hleft | ⟨w, hwm, hwrites⟩
  · cases hleft
  · obtain ⟨he, b', values', unwritten', hf'⟩ := id hwrites
    obtain ⟨-, rfl⟩ := Loader.mem_flights_of_flight? hf'
    obtain ⟨t', q', -, htq, hqw, hask, hepoch, -⟩ := R.flight_source hf'
    obtain rfl := ask_unique h.asked hask
    -- Nothing has been invalidated since the epoch was noted, so it is still that of the cache.
    have htw : t < w := Nat.lt_trans htq hqw
    have hcurrent := R.history.epoch_eq_of_calm _ (Nat.le_of_lt htw)
      (h.calm.mono (Nat.le_refl t) (Nat.le_of_lt hwm))
    exact ⟨w, _, htw, hwm, h.moment w he, hwrites.stored (hcurrent.trans hepoch)⟩

end Run

/-- A service with its cache on and its segment to itself asks the store only for keys of loads that have
found nothing live in the cache. When a batch has been completed at a moment, a load of one of its keys that
begins before the time to live has passed since then is answered from the cache and asks the store for
nothing, whether there is a row under the key or not, as long as nobody deletes the key or clears the segment
or the cache. -/
theorem sparing {R : Run u} (hon : u.config.enabled = true) (hS : R.Sole) :
    (∀ t g epoch k, R.event t = .ask g → k ∈ ((R.state t).loader.start g epoch).1 →
      ∃ b j l, b < j ∧ j < t ∧ R.Begins b l k ∧ R.Joins j l k g ∧
        ∀ x, (R.state b).cache.find? u.entity.segment k = some x →
          x.expired (R.state b).clock = true) ∧
    ∀ t m g batch c, R.Completes t m g batch c → ∀ k ∈ batch.keys, ∀ n l, m ≤ n → R.Begins n l k →
      (R.state n).clock < c + u.config.ttl.toNat → R.Spares m n k →
      (∃ row, R.Answers n l (.ok row)) ∧ ∀ j, R.event j ≠ .join l := by
  constructor
  · intro t g epoch k ht hk
    obtain ⟨batch, hstart, hkeys, -⟩ := Run.keys_of_ask ht
    rw [hstart, hkeys, mem_distinct] at hk
    obtain ⟨⟨k, l⟩, hjoined, rfl⟩ := List.mem_map.1 hk
    obtain ⟨j, hjt, hjoins⟩ := Run.mem_joined.1 hjoined
    obtain ⟨b, hbj, hbegins, hmiss⟩ := R.began_of_missed hjoins.missed
    exact ⟨b, j, l, hbj, hjt, hbegins, hjoins, fun x hx => hS.expired_of_look hon hmiss hx⟩
  · intro t m g batch c hcomplete k hk n l hmn hbegins hclock hspares
    obtain ⟨w, v, htw, hwm, hcw, hstored⟩ := hcomplete.stored hon hk
    -- Until the batch has been completed nothing is invalidated, and then the key is spared.
    have hspared : R.Spares (w + 1) n k := by
      intro i hwi hin
      by_cases him : i < m
      · exact Run.spares_of_calm hcomplete.calm k i (by omega) him
      · exact hspares i (Nat.le_of_not_lt him) hin
    obtain ⟨v', hlive⟩ := Run.live_of_stored hstored (by omega) hspared (by omega)
    obtain ⟨hanswers, hjoin⟩ := hS.spared_of_live hon hbegins hlive
    exact ⟨⟨v'.row, hanswers⟩, hjoin⟩

/-! ## A run -/

/-- Two categories are loaded of which there is one, and then another is deleted. Just before the time to
live has passed since they were written, both are loaded again. -/
def loadedAgain : List (Event Newsroom.Item) :=
  [.begin (.int 1), .begin (.int 2), .join 0, .join 1, .sleep 0, .pass 5, .fire 0, .ask 0,
    .settle 0 (.ok [.category { id := 1, name := "news" }]), .write 0, .write 0, .reply 0,
    .touch (.delete "Category" (.int 3)), .pass 29999, .begin (.int 1), .begin (.int 2)]

/-- The run in which both categories are loaded again. -/
def loadedAgainRun : Run (newsroom 5) :=
  .ofEvents (.pass 0) (pass_zero _) loadedAgain (by decide +kernel)

/-- The batch of both categories. -/
def bothCategories : Batch Nat where
  generation := 0
  waiting := [(.int 1, 0), (.int 2, 1)]

theorem loadedAgainRun_event (n : Nat) :
    match loadedAgainRun.event n with
    | .write _ => n = 9 ∨ n = 10
    | .touch op => op = .delete "Category" (.int 3)
    | _ => True := by
  by_cases hn : n < 16
  · interval_cases n <;> first | trivial | rfl | exact .inl rfl | exact .inr rfl
  · have hquiet : loadedAgainRun.event n = .pass 0 := List.getD_eq_default _ _ (Nat.le_of_not_lt hn)
    rw [hquiet]
    trivial

theorem sole_loadedAgainRun : loadedAgainRun.Sole := by
  intro n op k hn
  have hop := loadedAgainRun_event n
  rw [hn] at hop
  rw [show op = _ from hop]
  rfl

theorem completes_loadedAgainRun : loadedAgainRun.Completes 7 11 0 bothCategories 5 where
  asked := rfl
  written := ⟨⟨0, 0⟩, [(.int 1, some (.category { id := 1, name := "news" })), (.int 2, none)],
    by decide +kernel⟩
  moment := by
    intro w hw
    have hstep := loadedAgainRun_event w
    rw [hw] at hstep
    rcases hstep with rfl | rfl <;> decide +kernel
  calm := by
    intro n h1 h2
    interval_cases n <;> intro op hop <;> cases hop <;> rfl

/-- Both loads are answered from the cache, that of the missing category too, though the epoch has moved. -/
theorem sparing_loadedAgain :
    loadedAgainRun.Sole ∧ loadedAgainRun.Completes 7 11 0 bothCategories 5 ∧
      (∃ row, loadedAgainRun.Answers 14 2 (.ok row)) ∧ (∀ j, loadedAgainRun.event j ≠ .join 2) ∧
      (∃ row, loadedAgainRun.Answers 15 3 (.ok row)) ∧ ∀ j, loadedAgainRun.event j ≠ .join 3 := by
  have hspares : ∀ k, k ≠ .int 3 → ∀ n ≤ 16, loadedAgainRun.Spares 11 n k := by
    intro k hk n hn i h1 h2 op hop
    have hi : i < 16 := by omega
    interval_cases i <;> cases hop
    · exact decide_eq_false fun h => hk h.2.symm
    · rfl
    · rfl
  have hsparing := (sparing (R := loadedAgainRun) rfl sole_loadedAgainRun).2 7 11 0 bothCategories 5
    completes_loadedAgainRun
  have hfound := hsparing (.int 1) (by decide) 14 2 (by decide) ⟨rfl, by decide +kernel⟩ (by decide +kernel)
    (hspares _ (by decide) 14 (by decide))
  have hmissing := hsparing (.int 2) (by decide) 15 3 (by decide) ⟨rfl, by decide +kernel⟩
    (by decide +kernel) (hspares _ (by decide) 15 (by decide))
  exact ⟨sole_loadedAgainRun, completes_loadedAgainRun, hfound.1, hfound.2, hmissing.1, hmissing.2⟩

end ReadThrough.Service
