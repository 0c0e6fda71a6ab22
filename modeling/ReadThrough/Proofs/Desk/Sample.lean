import ReadThrough.Proofs.Desk.Roll
import ReadThrough.Proofs.Random.Shuffle
/-!
# Random samples

A random sample is a stretch of the roll of a category, shuffled (`IsSample`). The stretch begins where the
drawn fraction says, and there are so many rows behind its start as the sample has. Shuffling loses no key, and
every key is loaded again as the row that the table has under it (`run_sample`). So a request for a random
sample is answered with as many rows as there are, up to the size that it asks for and the limits allow
(`samples_window`).
-/

namespace ReadThrough

variable {ρ : Type}

namespace Engine

/-- So many rows are a sample of a list: those of a stretch of the list from a place on, in any order. -/
structure IsSample (g : Engine ρ) (rows : List ρ) (n skip : Nat) (items : List ρ) : Prop where
  length_eq : items.length = min n rows.length
  distinct : (items.map g.entity.key).Nodup
  fits : skip + min n rows.length ≤ rows.length
  perm : items.Perm ((rows.drop skip).take n)

/-- The place in a list where the stretch begins that a sample is made of. -/
def sampleStart (rows : List ρ) (n : UInt32) (r : Float) : Nat :=
  (windowStart (.ofNat rows.length) n.toUInt64 r).toNat

/-- There is room for a sample behind the place where it begins. -/
theorem sampleStart_add_le (rows : List ρ) (n : UInt32) (r : Float) :
    sampleStart rows n r + min n.toNat rows.length ≤ rows.length := by
  have hwindow := windowStart_add_le (.ofNat rows.length) n.toUInt64 r
  have hcount : (UInt64.ofNat rows.length).toNat ≤ rows.length := by
    rw [UInt64.toNat_ofNat']
    exact Nat.mod_le _ _
  rw [UInt32.toNat_toUInt64] at hwindow
  unfold sampleStart
  by_cases hcovers : (UInt64.ofNat rows.length).toNat ≤ n.toNat
  · -- A window that covers all that are counted begins at the first row.
    have hstart : windowStart (.ofNat rows.length) n.toUInt64 r = 0 := by
      unfold windowStart
      rw [if_pos]
      rw [UInt64.le_iff_toNat_le, UInt32.toNat_toUInt64]
      exact hcovers
    rw [hstart]
    show 0 + _ ≤ _
    omega
  · omega

variable {g : Engine ρ} {s : Stock ρ} {category : Option String} {rows : List ρ}

/-- The rows of a stretch of a roll, in any order, are a sample. -/
theorem IsRoll.isSample (h : g.IsRoll s category rows) {n skip : Nat} {items : List ρ}
    (hfits : skip + min n rows.length ≤ rows.length) (hperm : items.Perm ((rows.drop skip).take n)) :
    g.IsSample rows n skip items where
  length_eq := by
    rw [hperm.length_eq, List.length_take, List.length_drop]
    omega
  distinct := by
    have hpart : ((rows.drop skip).take n).Sublist rows :=
      (List.take_sublist n _).trans (List.drop_sublist skip rows)
    exact (hperm.map g.entity.key).nodup_iff.2 (h.nodup_keys.sublist (hpart.map g.entity.key))
  fits := hfits
  perm := hperm

end Engine

namespace Desk

open Engine

/-- On the stock alone, a sample of the rows that pass a filter is answered. -/
theorem run_sample {g : Engine ρ} {s : Stock ρ} (hs : s.rows.WellKeyed g.entity) {f : Filter}
    (hf : ∀ c ∈ f, g.entity.hasColumn c.column = true) (n : UInt32) :
    ∃ items random, (g.sample f n).run.run g.answer s = (.ok { items }, { s with random }) ∧
      items.Perm (((s.rows.inOrder g.entity f).drop
        (sampleStart (s.rows.inOrder g.entity f) (g.limits.sample n) s.random.unit.1)).take
          (g.limits.sample n).toNat) := by
  generalize hsize : g.limits.sample n = size
  generalize hall : s.rows.inOrder g.entity f = all
  let start := windowStart (.ofNat (s.rows.matching g.entity f).length) size.toUInt64 s.random.unit.1
  let o : FindOptions := { filter := f, order := [g.entity.natural], skip := start, take := some size.toUInt64 }
  let drawn : Stock ρ := { s with random := s.random.unit.2 }
  let window := (all.drop start.toNat).take size.toNat
  have hfound : drawn.rows.findMany g.entity o = .ok window := by
    have hnatural : ∀ x ∈ [g.entity.natural], g.entity.hasColumn x.column = true :=
      List.forall_mem_singleton.2 g.entity.hasColumn_keyColumn
    rw [Table.findMany_inOrderOf (FindOptions.Declared.check ⟨hf, hnatural, List.forall_mem_nil _⟩) rfl,
      UInt32.toNat_toUInt64]
    subst hall
    rfl
  have hkeys : (Query.findKeys g.entity.kind o : Query ρ (List Key)).run.run g.answer drawn =
      (.ok (window.map g.entity.key), drawn) := by
    rw [run_findKeys, hfound]
    rfl
  let shuffled := (drawn.random.shuffle (window.map g.entity.key)).1
  let spent := (drawn.random.shuffle (window.map g.entity.key)).2
  have hperm : shuffled.Perm (window.map g.entity.key) := RandomSource.shuffle_perm _ _
  -- There are no more keys than the sample has room for.
  have hroom : shuffled.take size.toNat = shuffled := by
    apply List.take_of_length_le
    rw [hperm.length_eq, List.length_map]
    exact List.length_take_le _ _
  refine ⟨s.rows.findByIds shuffled, spent, ?_, ?_⟩
  · have hunit : (Query.ask (.unit : Ask ρ)).run.run g.answer s = (.ok s.random.unit.1, drawn) := rfl
    have hshuffle : (Query.ask (.shuffle (window.map g.entity.key) : Ask ρ)).run.run g.answer drawn =
        (.ok shuffled, { s with random := spent }) := rfl
    have hload := run_loadMany g { s with random := spent } (shuffled.take size.toNat)
    rw [hroom] at hload
    rw [Engine.sample, hsize]
    refine (Query.run_andThen (run_count hf)).trans ?_
    refine (Query.run_andThen hunit).trans ?_
    refine (Query.run_andThen hkeys).trans ?_
    refine (Query.run_andThen hshuffle).trans ?_
    rw [UInt32.toNat_toUInt64, hroom]
    exact (Query.run_andThen hload).trans rfl
  · have hwindow : s.rows.findByIds (window.map g.entity.key) = window := hs.findByIds_of_findMany hfound
    have hstart : sampleStart all size s.random.unit.1 = start.toNat := by
      have hlength : all.length = (s.rows.matching g.entity f).length := by
        rw [← hall]
        exact List.length_mergeSort _
      rw [sampleStart, hlength]
    rw [hstart]
    calc (s.rows.findByIds shuffled).Perm (s.rows.findByIds (window.map g.entity.key)) := hperm.filterMap _
      _ = window := hwindow

/-- So is a request for a random sample of a category that there is. -/
theorem run_random {g : Engine ρ} {s : Stock ρ} (hs : s.rows.WellKeyed g.entity) {r : Request} {n : UInt32}
    (hmode : r.mode = .ok (.random n)) (hknown : g.Knows s r.category) {rows : List ρ}
    (hrows : g.IsRoll s r.category rows) :
    ∃ items random, (g.resolve { r with fields := none }).run.run g.answer s =
        (.ok { items }, { s with random }) ∧
      g.IsSample rows (g.limits.sample n).toNat (sampleStart rows (g.limits.sample n) s.random.unit.1)
        items := by
  obtain ⟨f, hfilter, hdeclared, hf⟩ := Engine.run_categoryFilter hknown
  obtain rfl := hrows.unique (isRoll_inOrder hs hf)
  obtain ⟨items, random, hsample, hperm⟩ := run_sample hs hdeclared n
  refine ⟨items, random, ?_, hrows.isSample (sampleStart_add_le _ _ _) hperm⟩
  exact (Query.run_andThen (run_mode g s hmode)).trans ((Query.run_andThen hfilter).trans hsample)

/-! ## Samples at a desk -/

/-- Whatever the length of a list, shuffling it exchanges members that are there. Whatever the fraction, a
window begins where there is room for it. At a desk whose tables are in memory, a request for a random sample
of all rows, or of a category that there is, is answered. The answer has as many rows as are asked for, the
limits allow and there are. They are a stretch of those that match, by the key column, in some order, and the
stretch begins where the drawn fraction says. -/
theorem samples_window (u : Setup ρ) {d : Desk ρ} (hd : Coherent u.inMemory d) {r : Request} {n : UInt32}
    (hmode : r.mode = .ok (.random n)) (hknown : u.engine.Knows d.stock r.category) :
    (∀ (g : ChaCha) (length : Nat), (g.partners length).1.length = length ∧
      ∀ p ∈ (g.partners length).1.zipIdx, p.1 ≤ p.2 ∧ p.2 < length) ∧
    (∀ count n r, (windowStart count n r).toNat + min n.toNat count.toNat ≤ count.toNat) ∧
    ∃ rows, u.engine.IsRoll d.stock r.category rows ∧
      ((∀ k row, d.stock.rows.get? k = some row → u.engine.entity.Keyed row) →
        u.engine.IsListing d.stock r.category none rows) ∧
      (∃ x d', u.inMemory.Carries (u.engine.resolve r).run d x d') ∧
      ∀ x d', u.inMemory.Carries (u.engine.resolve r).run d x d' → ∃ items, x = .ok { items } ∧
        u.engine.IsSample rows (min n.toNat (max 1 u.engine.limits.maxPageSize.toNat))
          (sampleStart rows (u.engine.limits.sample n) d.stock.random.unit.1) items := by
  obtain ⟨rows, hrows⟩ := exists_roll u.engine hd.keyed r.category
  have hresolve := Realizes.resolve (u := u.inMemory) rfl r
  refine ⟨fun g length => g.partners_le length, windowStart_add_le, rows, hrows, hrows.isListing,
    hresolve.returns d hd, ?_⟩
  intro x d' hcarries
  obtain ⟨items, random, hrun, hsample⟩ := run_random (g := u.engine) hd.keyed hmode hknown hrows
  have hanswer : (Except.ok ({ items } : Resolution ρ), { d.stock with random }) = (x, d'.stock) :=
    hrun.symm.trans (hresolve.agrees d x d' hd hcarries).2
  obtain ⟨rfl, -⟩ := Prod.mk.inj hanswer
  rw [u.engine.limits.toNat_sample n] at hsample
  exact ⟨items, rfl, hsample⟩

/-! ## News -/

/-- The request for two of the news at random. -/
def someNews : Request := { random := some 2, category := some "news" }

/-- Two of the three articles of news are answered, different ones. -/
theorem samples_window_newsroom :
    Coherent (newsroom {}).inMemory newsDesk ∧ someNews.mode = .ok (.random 2) ∧
      (newsroom {}).engine.Knows newsDesk.stock someNews.category ∧
      ∃ items d', (newsroom {}).inMemory.Carries ((newsroom {}).engine.resolve someNews).run newsDesk
        (.ok { items }) d' ∧ items.length = 2 ∧ (items.map Newsroom.articles.key).Nodup ∧
          ∀ item ∈ items, item ∈ newsListed := by
  have hd : Coherent (newsroom {}).inMemory newsDesk := coherent_fresh _ _ _ _
  have hmode : someNews.mode = .ok (.random 2) := rfl
  have hknown : (newsroom {}).engine.Knows newsDesk.stock someNews.category := knows_news categories_quiet
  obtain ⟨-, -, rows, hrows, -, ⟨x, d', hcarries⟩, hall⟩ := samples_window (newsroom {}) hd hmode hknown
  obtain ⟨items, rfl, hsample⟩ := hall x d' hcarries
  have hperm := perm_newsListed hrows
  refine ⟨hd, hmode, hknown, items, d', hcarries, ?_, hsample.distinct, fun item hitem => ?_⟩
  · rw [hsample.length_eq, hperm.length_eq]
    rfl
  · apply hperm.subset
    exact List.mem_of_mem_drop (List.mem_of_mem_take (hsample.perm.subset hitem))

end Desk

end ReadThrough
