import Mathlib.Tactic.IntervalCases
import ReadThrough.Cluster.Load
import ReadThrough.Proofs.Service.Hearing
/-!
# Failures are contained

A batch to which the store says that it has failed, or that has waited for the store too long, tells those
who wait for it so and is gone (`Run.Contains`). Nothing else of the service changes with it, and nothing
that the store may still have to say of it is heard. Nothing of it is remembered either: what is put into the
cache was delivered by the store, and a later load of one of its keys that finds nothing in the cache asks
the store again with another batch (`containment`).
-/

namespace ReadThrough

/-! ## Batches that do not wait for the store -/

/-- There is one flight of a number. -/
theorem Loader.Numbered.flight?_of_mem {ρ τ : Type} {l : Loader ρ τ} (hl : l.Numbered) {f : Flight ρ τ}
    (hf : f ∈ l.flights) : l.flight? f.generation = some f := by
  cases h : l.flight? f.generation with
  | none => exact absurd (decide_eq_true rfl) (List.find?_eq_none.1 h f hf)
  | some f' =>
    obtain ⟨hf', hg⟩ := mem_flights_of_flight? h
    rw [List.inj_on_of_nodup_map hl.flight_nodup hf hf' hg.symm]

/-- A batch that is not waiting for the store takes no answer. -/
theorem Loader.Numbered.settle_eq {ρ τ : Type} {l : Loader ρ τ} (hl : l.Numbered) {g : Nat}
    (h : ∀ b epoch, l.flight? g ≠ some { batch := b, stage := .asked epoch }) (key : ρ → Key)
    (enabled : Bool) (answer : Except StoreError (List ρ)) : l.settle g key enabled answer = l := by
  have hsame : ∀ f ∈ l.flights, (if f.batch.generation = g then f.settle key enabled answer else f) = f := by
    intro f hf
    split
    · rename_i hg
      have hflight := hl.flight?_of_mem hf
      obtain ⟨b, stage⟩ := f
      cases stage with
      | asked epoch => exact absurd (hg ▸ hflight) (h b epoch)
      | closed | answered | failed => rfl
    · rfl
  rw [settle, Loader.modify, List.map_congr_left hsame, List.map_id']

namespace Service

variable {ρ : Type} {u : Setup ρ}

/-- What a batch that has asked the store at a moment hears by now: what the store says, if it is ready to
say it, and that the time is up if it is not and the time for fetching has passed. -/
def Setup.fetched? (u : Setup ρ) (since now ready : Nat) (answer : Except StoreError (List ρ)) :
    Option (Except StoreError (List ρ)) :=
  if ready ≤ now then some answer
  else if u.config.fetchTimeout.any fun limit => wakeTime since limit.toNat ≤ now then
    some (.error .timeout)
  else none

/-- The task of a batch waits until the batch hears something, and goes on with what it hears. -/
theorem Setup.goOnFetching_eq {c : Cluster ρ} {node : Nat} {segment : String} {n : Cluster.Node ρ}
    {r : Cluster.Registered ρ} {s : Cluster.SharedStore ρ} (hn : c.nodes[node]? = some n)
    (hr : n.loaders.find? segment = some r) (hs : c.stores.find? r.entity.kind = some s)
    (id g : Nat) (keys : List Key) (faults : Cluster.Faults) (since ready : Nat) :
    c.goOnFetching id node segment g keys faults since ready
        (n.config.fetchTimeout.map fun limit => wakeTime since limit.toNat) =
      match Setup.fetched? { entity := r.entity, config := n.config } since c.clock ready
        (s.findByIds faults keys) with
      | none => c
      | some answer =>
        let c := c.record { metric := .fetchTime, segment, amount := c.clock - since }
        let c := c.setLoader node segment (r.loader.settle g r.entity.key n.config.enabled answer)
        (c.writeAll node segment g keys.length).land id node segment g Loader.reply := by
  rw [Cluster.goOnFetching, hn]
  simp only [hr, hs, Option.any_map]
  rfl

/-- Two states of a service that differ in the flight of a batch and in nothing else. -/
structure SameBut (g : Nat) (s s' : Service ρ) : Prop where
  clock : s'.clock = s.clock
  cache : s'.cache = s.cache
  pending : s'.loader.pending = s.loader.pending
  generation : s'.loader.generation = s.loader.generation
  flights : ∀ g', g' ≠ g → s'.loader.flight? g' = s.loader.flight? g'
  loads : s'.loads = s.loads
  missed : s'.missed = s.missed
  dropped : s'.dropped = s.dropped
  delays : s'.delays = s.delays
  pages : s'.pages = s.pages
  pageCount : s'.pageCount = s.pageCount

theorem sameBut_of_settle {s s' : Service ρ} {g : Nat} {answer : Except StoreError (List ρ)}
    (h : u.step s (.settle g answer) = some s') : SameBut g s s' := by
  cases step_moves h with | settle hf =>
  refine ⟨rfl, rfl, rfl, rfl, fun g' hg => ?_, rfl, rfl, rfl, rfl, rfl, rfl⟩
  rw [Loader.flight?_modify fun f => Flight.batch_settle f _ _ _, if_neg hg]

theorem sameBut_of_reply {s s' : Service ρ} {g : Nat} (h : u.step s (.reply g) = some s') :
    SameBut g s s' := by
  cases step_moves h with | reply hf =>
  refine ⟨rfl, rfl, rfl, rfl, fun g' hg => ?_, rfl, rfl, rfl, rfl, rfl, rfl⟩
  rw [Loader.flight?_remove, if_neg hg]

namespace Run

section

variable (R : Run u)

/-- What the store says to each batch, and when it is ready to say it; and a batch hears of it as long as its
time is not up. -/
def Heeds (S : Nat → Nat × Except StoreError (List ρ)) : Prop :=
  ∀ t q g answer, R.event t = .ask g → R.event q = .settle g answer →
    u.fetched? (R.state t).clock (R.state q).clock (S g).1 (S g).2 = some answer

/-- What becomes of a load that begins at a step, finds nothing in the cache, and is not the first for its
key. -/
structure AsksAgain (n l : Nat) (k : Key) (g : Nat) : Prop where
  /-- If it joins a batch, that is another one than the one that has failed: it was open when the load joined
  it, or the load opened it. -/
  joins : ∀ j g', R.Joins j l k g' → n < j ∧ g' ≠ g ∧
    ((∃ b, (R.state j).loader.pending = some b ∧ b.generation = g') ∨
      (R.state j).loader.pending = none ∧ (R.state j).loader.generation = g')
  /-- When the store is asked for the keys of that batch, it is asked for the key. -/
  asked : ∀ j g' t epoch, R.Joins j l k g' → R.event t = .ask g' →
    j < t ∧ k ∈ ((R.state t).loader.start g' epoch).1
  /-- It joins one, and the store is asked, unless somebody waits for ever. -/
  again : R.Fair → ∃ j g' t, R.Joins j l k g' ∧ j < t ∧ R.event t = .ask g'

/-- A failure of the store that a batch hears of at a step goes no further than to those who wait for it. -/
structure Contains (q : Nat) (b : Batch Nat) (e : StoreError) : Prop where
  /-- Those who wait for the batch are told of the failure. -/
  informs : R.Informs q b fun _ x => x = .error e
  /-- Those who wait for another batch are told, when that batch answers, what the store has said to it. -/
  others : ∀ j l k g r x, R.Joins j l k g → g ≠ b.generation → R.Answers r l x →
    R.event r = .reply g ∧ ∃ q' b' answer, q' ≠ q ∧ b'.generation = g ∧ R.Hears q' b' answer ∧
      x = Flight.result u.entity.key answer k
  /-- Nobody is told anything when the failure is heard. -/
  silent : u.answers (R.state q) (R.event q) = []
  /-- Nothing but the flight of the batch changes then, or when the batch answers. -/
  same : ∀ n, n = q ∨ R.event n = .reply b.generation →
    SameBut b.generation (R.state n) (R.state (n + 1))
  /-- Nothing is written to the cache for the batch. -/
  unwritten : ∀ w, R.event w ≠ .write b.generation
  /-- Nothing that the store has to say to the batch afterwards is heard. -/
  late : ∀ n answer, q < n → u.step (R.state n) (.settle b.generation answer) = none ∧
    (R.state n).loader.settle b.generation u.entity.key u.config.enabled answer = (R.state n).loader
  /-- A load of a key of the batch that begins later and finds nothing in the cache asks the store again. -/
  again : ∀ n l k, q < n → R.Begins n l k → k ∈ b.keys → (u.look (R.state n) k).1 = none →
    R.AsksAgain n l k b.generation

end

variable {R : Run u}

/-- A batch that has been heard of waits for the store no longer. -/
theorem Hears.not_asked {q n : Nat} {b : Batch Nat} {answer : Except StoreError (List ρ)}
    (h : R.Hears q b answer) (hn : q < n) (b' : Batch Nat) (epoch : Epoch) :
    (R.state n).loader.flight? b.generation ≠ some { batch := b', stage := .asked epoch } := by
  intro hf
  have hasked := left_settle h.1
  have hless := left_advances (R := R) (n := q) (g := b.generation) (by rw [h.1]; rfl)
  have hmono := R.left_mono (show q + 1 ≤ n from hn) b.generation
  rw [left_of_flight hf, Setup.leftAt] at hmono
  omega

/-- A batch whose fetch has failed writes nothing. -/
theorem Hears.not_writes {q : Nat} {b : Batch Nat} {e : StoreError} (h : R.Hears q b (.error e))
    (w : Nat) : R.event w ≠ .write b.generation := by
  intro hw
  obtain ⟨b', epoch, values, k, row, unwritten, hf⟩ := flight_of_write (hw ▸ R.next w)
  have hg : b'.generation = b.generation := (Loader.mem_flights_of_flight? hf).2
  obtain ⟨t, q', rows, -, -, -, -, hhears, -⟩ := R.flight_source hf
  obtain ⟨-, -, hanswer⟩ := h.unique hhears hg.symm
  cases hanswer

/-- A load that begins when a batch has been heard of, and finds nothing in the cache, asks the store
again. -/
theorem Hears.asksAgain {q n l : Nat} {k : Key} {b : Batch Nat} {answer : Except StoreError (List ρ)}
    (h : R.Hears q b answer) (hn : q < n) (hb : R.Begins n l k)
    (hmiss : (u.look (R.state n) k).1 = none) : R.AsksAgain n l k b.generation where
  joins := by
    intro j g' hjoins
    obtain ⟨n', hnj, hbegins, -⟩ := R.began_of_missed hjoins.missed
    obtain ⟨rfl, -⟩ := hb.unique hbegins
    refine ⟨hnj, ?_, ?_⟩
    · rintro rfl
      obtain ⟨t, htq, ht⟩ := h.asked
      have hjt := hjoins.lt_ask ht
      omega
    · rw [← hjoins.batch]
      cases hp : (R.state j).loader.pending with
      | none => exact .inr ⟨rfl, (Loader.generation_current_of_none hp).symm⟩
      | some b' => exact .inl ⟨b', rfl, by rw [Loader.current_of_pending hp]⟩
  asked := by
    intro j g' t epoch hjoins ht
    have hjt := hjoins.lt_ask ht
    obtain ⟨b', hstart, hkeys, -⟩ := keys_of_ask ht
    rw [hstart, hkeys, mem_distinct]
    exact ⟨hjt, List.mem_map.2 ⟨(k, l), mem_joined.2 ⟨j, hjt, hjoins⟩, rfl⟩⟩
  again := by
    intro hF
    obtain ⟨j, g', r, hjoins, -⟩ := hF.served hb hmiss
    obtain ⟨t, hjt, ht⟩ := hF.asked hjoins
    exact ⟨j, g', t, hjoins, hjt, ht⟩

/-- A failure that a batch hears of is contained. -/
theorem Hears.contains {q : Nat} {b : Batch Nat} {e : StoreError} (h : R.Hears q b (.error e)) :
    R.Contains q b e where
  informs := h.informs fun _ _ => Iff.rfl
  others := by
    intro j l k g r x hjoins hg hr
    have hreply := hjoins.answered_by hr
    obtain ⟨b', hbj, hbegins, hmiss⟩ := R.began_of_missed hjoins.missed
    obtain ⟨j', q', b', answer, -, -, -, hjoins', hhears, hx⟩ := heard_of_answers hbegins hmiss hr
    obtain ⟨-, -, rfl⟩ := hjoins.unique hjoins'
    refine ⟨hreply, q', b', answer, ?_, rfl, hhears, hx⟩
    rintro rfl
    exact hg (Event.settle.inj (hhears.1.symm.trans h.1)).1
  silent := by
    rw [h.1]
    rfl
  same := by
    rintro n (rfl | hn)
    · exact sameBut_of_settle (h.1 ▸ R.next n)
    · exact sameBut_of_reply (hn ▸ R.next n)
  unwritten := h.not_writes
  late := by
    intro n answer hn
    constructor
    · cases hstep : u.step (R.state n) (.settle b.generation answer) with
      | none => rfl
      | some s' =>
        obtain ⟨b', epoch, hf⟩ := flight_of_settle hstep
        exact absurd hf (h.not_asked hn b' epoch)
    · exact (R.numbered n).settle_eq (h.not_asked hn) _ _ _
  again := fun n l k hn hb _ hmiss => h.asksAgain hn hb hmiss

/-- A batch that the store has kept waiting for too long hears that the time is up. -/
theorem Heeds.timeout {S : Nat → Nat × Except StoreError (List ρ)} (hS : R.Heeds S) {t q : Nat}
    {b : Batch Nat} {answer : Except StoreError (List ρ)} (ht : R.event t = .ask b.generation)
    (h : R.Hears q b answer) (hlate : (R.state q).clock < (S b.generation).1) :
    answer = .error .timeout ∧ ∃ limit, u.config.fetchTimeout = some limit ∧
      wakeTime (R.state t).clock limit.toNat ≤ (R.state q).clock := by
  have hheard := hS t q b.generation answer ht h.1
  rw [Setup.fetched?, if_neg (Nat.not_le.2 hlate)] at hheard
  split at hheard
  · rename_i hpast
    obtain rfl := Option.some.inj hheard
    obtain ⟨limit, hlimit, hle⟩ := (Option.any_eq_true _ _).1 hpast
    exact ⟨rfl, limit, hlimit, of_decide_eq_true hle⟩
  · cases hheard

end Run

/-- Whatever failure of the store a batch hears of is contained, and so it is when the store has kept the
batch waiting for longer than the time for fetching. What is put into the cache for the service was delivered
by the store, and never with a failure. -/
theorem containment (R : Run u) :
    (∀ q b e, R.Hears q b (.error e) → R.Contains q b e) ∧
    (∀ S, R.Heeds S → ∀ t q b answer, R.event t = .ask b.generation → R.Hears q b answer →
      (R.state q).clock < (S b.generation).1 →
      answer = .error .timeout ∧ R.Contains q b .timeout ∧ ∃ limit, u.config.fetchTimeout = some limit ∧
        wakeTime (R.state t).clock limit.toNat ≤ (R.state q).clock) ∧
    ∀ n k v op, R.history.op n = some op → op.stores? u.entity.segment k = some v →
      v.kind = u.entity.kind → R.Brings n k v op := by
  refine ⟨fun q b e h => h.contains, ?_, fun n k v op hop hs hv => R.store_source hop hs hv⟩
  intro S hS t q b answer ht h hlate
  obtain ⟨rfl, hlimit⟩ := hS.timeout ht h hlate
  exact ⟨rfl, h.contains, hlimit⟩

/-! ## A run -/

/-- A service of the newsroom's categories that waits for the store for ten milliseconds. -/
def impatient : Setup Newsroom.Item where
  entity := Newsroom.categories
  config := { batchDelay := 5, fetchTimeout := some 10 }

/-- Two categories are loaded, and while the store is slow, one of them again. When the time is up a third
load comes, which joins the batch of the second. -/
def slowStore : List (Event Newsroom.Item) :=
  [.begin (.int 1), .begin (.int 2), .join 0, .join 1, .sleep 0, .pass 5, .fire 0, .ask 0,
    .begin (.int 1), .join 2, .pass 10, .settle 0 (.error .timeout), .reply 0, .begin (.int 2), .join 3,
    .sleep 1, .pass 5, .fire 1, .ask 1, .settle 1 (.ok [.category { id := 1, name := "news" }]), .write 1,
    .write 1, .reply 1]

/-- The first batch fails and the second does not, though they have both keys in common. -/
theorem containment_slowStore :
    ∃ (R : Run impatient) (b : Batch Nat), R.Fair ∧ R.Hears 11 b (.error .timeout) ∧
      R.Contains 11 b .timeout ∧ R.Answers 12 0 (.error .timeout) ∧ R.Answers 12 1 (.error .timeout) ∧
      R.Answers 22 2 (.ok (some (.category { id := 1, name := "news" }))) ∧
      ∃ j g t, R.Joins j 3 (.int 2) g ∧ g ≠ 0 ∧ j < t ∧ R.event t = .ask g := by
  let R : Run impatient := .ofEvents (.pass 0) (pass_zero _) slowStore (by decide +kernel)
  let b : Batch Nat := { generation := 0, waiting := [(.int 1, 0), (.int 2, 1)] }
  let S : Nat → Nat × Except StoreError (List Newsroom.Item) := fun g =>
    if g = 0 then (1000, .ok []) else (0, .ok [.category { id := 1, name := "news" }])
  have hrest : ∀ n, 23 ≤ n → (R.state n).AtRest := by
    intro n hn
    have hlast : R.state n = R.state 23 := ReadThrough.Run.state_ofEvents _ _ _ hn
    rw [hlast]
    exact ⟨by decide +kernel, by decide +kernel, by decide +kernel⟩
  have hfair := Run.Fair.of_rest hrest
  have hhears : R.Hears 11 b (.error .timeout) := ⟨rfl, ⟨0, 0⟩, by decide +kernel⟩
  have hquiet : ∀ n, 23 ≤ n → R.event n = .pass 0 := fun n hn => List.getD_eq_default _ _ hn
  have hheeds : R.Heeds S := by
    intro t q g answer ht hq
    have hlt : t < 23 ∧ q < 23 := by
      constructor
      · by_contra hle
        rw [hquiet t (Nat.le_of_not_lt hle)] at ht
        cases ht
      · by_contra hle
        rw [hquiet q (Nat.le_of_not_lt hle)] at hq
        cases hq
    obtain ⟨ht', hq'⟩ := hlt
    interval_cases t <;> cases ht <;> interval_cases q <;> cases hq <;> decide +kernel
  obtain ⟨-, hcontains, -⟩ := (containment R).2.1 S hheeds 7 11 b _ rfl hhears (by decide +kernel)
  have hbegins : R.Begins 13 3 (.int 2) := ⟨rfl, by decide +kernel⟩
  have hagain := hcontains.again 13 3 (.int 2) (by decide) hbegins (by decide) (by decide +kernel)
  obtain ⟨j, g, t, hjoins, hjt, ht⟩ := hagain.again hfair
  have htold := (hcontains.informs.told 12 rfl).2
  have hstay : ∀ l, l ∉ (R.state 12).dropped := fun _ => nofun
  refine ⟨R, b, hfair, hhears, hcontains, ?_, ?_, ?_, j, g, t, hjoins, ?_, hjt, ht⟩
  · exact (htold 0 _).2 ⟨hstay 0, .int 1, by decide, rfl⟩
  · exact (htold 1 _).2 ⟨hstay 1, .int 2, by decide, rfl⟩
  · show _ ∈ impatient.answers (R.state 22) (R.event 22)
    decide +kernel
  · exact (hagain.joins j g hjoins).2.1

end Service

end ReadThrough
