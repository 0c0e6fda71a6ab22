import Mathlib.Order.Interval.Finset.Nat
import ReadThrough.Cache.View
/-!
# What happens to a cache

`Op` lists everything that can be done to a cache, and a `History` is a cache to which at most one thing
is done at every step. The two counters of an epoch count invalidations, each modulo `2 ^ 64`, and
nothing else moves them. So two epochs of a segment that are equal have no invalidation of the segment
between them, as long as there are fewer than `2 ^ 64` of them (`calm_of_epoch_eq`).
-/

namespace ReadThrough.Cache

/-- What can be done to a cache. -/
inductive Op (ν : Type) where
  | get (segment : String) (k : Key)
  | set (segment : String) (k : Key) (v : ν)
  | setIfCurrent (segment : String) (k : Key) (v : ν) (epoch : Epoch)
  | delete (segment : String) (k : Key)
  | clearSegment (segment : String)
  | clearAll
  | purge

namespace Op

variable {ν : Type}

/-- The cache after something has been done to it. -/
def apply (op : Op ν) (now : Nat) (c : Cache ν) : Cache ν :=
  match op with
  | .get segment k => (c.get now segment k some).2
  | .set segment k v => c.set now segment k v
  | .setIfCurrent segment k v epoch => (c.setIfCurrent now segment k v epoch).2
  | .delete segment k => (c.delete segment k).2
  | .clearSegment segment => c.clearSegment segment
  | .clearAll => c.clearAll
  | .purge => c.purge now

/-- Whether something moves the counter that all segments share. -/
def movesAll : Op ν → Bool
  | .clearAll => true
  | _ => false

/-- Whether something moves the counter of a segment. -/
def movesSegment (segment : String) : Op ν → Bool
  | .delete s _ => s = segment
  | .clearSegment s => s = segment
  | _ => false

/-- Whether something is an invalidation of a segment, in whole or in part. -/
def invalidates (segment : String) (op : Op ν) : Bool := op.movesAll || op.movesSegment segment

/-- Whether something takes away what is kept under a key of a segment, whatever that is. -/
def removes (segment : String) (k : Key) : Op ν → Bool
  | .delete s k' => s = segment ∧ k' = k
  | .clearSegment s => s = segment
  | .clearAll => true
  | _ => false

/-- What is taken away is taken away by an invalidation. -/
theorem invalidates_of_removes {segment : String} {k : Key} {op : Op ν}
    (h : op.removes segment k = true) : op.invalidates segment = true := by
  cases op <;> simp_all [removes, invalidates, movesAll, movesSegment]

/-- The value that something may store under a key of a segment. -/
def stores? (segment : String) (k : Key) : Op ν → Option ν
  | .set s k' v | .setIfCurrent s k' v _ => if s = segment ∧ k' = k then some v else none
  | _ => none

end Op

variable {ν : Type}

/-! ## Entries -/

/-- What is found in the cache afterwards has been there before, or has just been stored. -/
theorem find?_apply {op : Op ν} {now : Nat} {c : Cache ν} {segment : String} {k : Key} {x : Entry ν}
    (h : (op.apply now c).find? segment k = some x) :
    (c.find? segment k = some x ∧ op.removes segment k = false) ∨
      op.stores? segment k = some x.value := by
  cases op with
  | get s k' =>
    rw [Op.apply, find?_get] at h
    split at h
    · exact .inl ⟨(Option.filter_eq_some_iff.1 h).1, rfl⟩
    · exact .inl ⟨h, rfl⟩
  | set s k' v =>
    rw [Op.apply, find?_set] at h
    split at h
    · rename_i hs
      cases h
      exact .inr (by simp [Op.stores?, hs])
    · exact .inl ⟨h, rfl⟩
  -- With another epoch than that of the cache nothing is stored.
  | setIfCurrent s k' v epoch =>
    rw [Op.apply, setIfCurrent] at h
    split at h
    · rw [find?_set] at h
      split at h
      · rename_i hs
        cases h
        exact .inr (by simp [Op.stores?, hs])
      · exact .inl ⟨h, rfl⟩
    · exact .inl ⟨h, rfl⟩
  | delete s k' =>
    rw [Op.apply, find?_delete] at h
    split at h
    · cases h
    · rename_i hs
      refine .inl ⟨h, ?_⟩
      simp only [Op.removes, decide_eq_false_iff_not]
      exact fun e => hs ⟨e.1.symm, e.2.symm⟩
  | clearSegment s =>
    rw [Op.apply, find?_clearSegment] at h
    split at h
    · cases h
    · rename_i hs
      refine .inl ⟨h, ?_⟩
      simp only [Op.removes, decide_eq_false_iff_not]
      exact fun e => hs e.symm
  | clearAll =>
    rw [Op.apply, find?_clearAll] at h
    cases h
  | purge =>
    rw [Op.apply, find?_purge] at h
    exact .inl ⟨(Option.filter_eq_some_iff.1 h).1, rfl⟩

/-- A value is stored under an epoch only while the epoch is that of the cache. -/
theorem find?_setIfCurrent {now : Nat} {c : Cache ν} {s segment : String} {k k' : Key} {v : ν}
    {epoch : Epoch} {x : Entry ν}
    (h : (c.setIfCurrent now s k' v epoch).2.find? segment k = some x) :
    c.find? segment k = some x ∨
      (s = segment ∧ k' = k ∧ x.value = v ∧ c.epoch segment = epoch) := by
  rw [setIfCurrent] at h
  split at h
  · rename_i hc
    rw [find?_set] at h
    split at h
    · rename_i hs
      cases h
      refine .inr ⟨hs.1.symm, hs.2.symm, rfl, ?_⟩
      rw [hs.1]
      exact of_decide_eq_true hc
    · exact .inl h
  · exact .inl h

/-! ## Counters -/

/-- An epoch after something has been done: each counter moves when it should. -/
theorem epoch_apply (op : Op ν) (now : Nat) (c : Cache ν) (segment : String) :
    (op.apply now c).epoch segment =
      { generation := (c.epoch segment).generation + if op.movesAll then 1 else 0
        segment := (c.epoch segment).segment + if op.movesSegment segment then 1 else 0 } := by
  cases op with
  | get s k => simp [Op.apply, Op.movesAll, Op.movesSegment]
  | set s k v => simp [Op.apply, Op.movesAll, Op.movesSegment]
  | setIfCurrent s k v epoch =>
    simp only [Op.apply, Op.movesAll, Op.movesSegment, setIfCurrent]
    split <;> simp
  | delete s k =>
    rw [Op.apply, epoch_delete]
    by_cases h : segment = s
    · simp [Op.movesAll, Op.movesSegment, h]
    · have h' : ¬ s = segment := fun e => h e.symm
      simp [Op.movesAll, Op.movesSegment, h, h']
  | clearSegment s =>
    rw [Op.apply, epoch_clearSegment]
    by_cases h : segment = s
    · simp [Op.movesAll, Op.movesSegment, h]
    · have h' : ¬ s = segment := fun e => h e.symm
      simp [Op.movesAll, Op.movesSegment, h, h']
  | clearAll =>
    rw [Op.apply, epoch_clearAll]
    simp [Op.movesAll, Op.movesSegment]
  | purge => simp [Op.apply, Op.movesAll, Op.movesSegment]

/-! ## Histories -/

/-- A cache through time: at every step at most one thing is done to it. -/
structure History (ν : Type) where
  cache : Nat → Cache ν
  clock : Nat → Nat
  op : Nat → Option (Op ν)
  next : ∀ n, cache (n + 1) = (op n).elim (cache n) fun op => op.apply (clock n) (cache n)

namespace History

variable (h : History ν) (segment : String) {t u : Nat}

/-- Whether a step does something that a test holds of. -/
def does (p : Op ν → Bool) (n : Nat) : Bool := (h.op n).any p

/-- How many of the steps from one to another, the last left out, do something of a kind. -/
def count (p : Op ν → Bool) (t u : Nat) : Nat := ((Finset.Ico t u).filter (h.does p ·)).card

/-- The number of invalidations of a segment between two steps. -/
def invalidations (t u : Nat) : Nat := h.count (Op.invalidates segment) t u

/-- There are no more invalidations than steps. -/
theorem invalidations_le (t u : Nat) : h.invalidations segment t u ≤ u - t := by
  have hle := Finset.card_filter_le (Finset.Ico t u) (h.does (Op.invalidates segment) ·)
  rwa [Nat.card_Ico] at hle

theorem count_succ (p : Op ν → Bool) (htu : t ≤ u) :
    h.count p t (u + 1) = h.count p t u + if h.does p u then 1 else 0 := by
  have hmem : u ∉ (Finset.Ico t u).filter (h.does p ·) := by simp
  rw [count, count, Nat.Ico_succ_right_eq_insert_Ico htu, Finset.filter_insert]
  split
  · rw [Finset.card_insert_of_notMem hmem]
  · rfl

theorem count_le_of_imp {p q : Op ν → Bool} (hpq : ∀ op, p op = true → q op = true) (t u : Nat) :
    h.count p t u ≤ h.count q t u := by
  refine Finset.card_le_card fun n hn => ?_
  rw [Finset.mem_filter] at hn ⊢
  refine ⟨hn.1, ?_⟩
  have hp : h.does p n = true := hn.2
  unfold does at hp ⊢
  cases ho : h.op n with
  | none => rw [ho] at hp; cases hp
  | some op => rw [ho] at hp; exact hpq op hp

/-- One step of the counters. -/
theorem epoch_succ (n : Nat) :
    (h.cache (n + 1)).epoch segment =
      { generation := ((h.cache n).epoch segment).generation +
          if h.does Op.movesAll n then 1 else 0
        segment := ((h.cache n).epoch segment).segment +
          if h.does (Op.movesSegment segment) n then 1 else 0 } := by
  rw [h.next n, does, does]
  cases h.op n with
  | none => simp
  | some op => exact epoch_apply op _ _ segment

/-- The counters count: each is what it was, plus the number of its invalidations since. -/
theorem epoch_eq_add_count (htu : t ≤ u) :
    (h.cache u).epoch segment =
      { generation := ((h.cache t).epoch segment).generation + .ofNat (h.count Op.movesAll t u)
        segment := ((h.cache t).epoch segment).segment +
          .ofNat (h.count (Op.movesSegment segment) t u) } := by
  induction u, htu using Nat.le_induction with
  | base => simp [count]
  | succ u htu ih =>
    rw [epoch_succ, ih, count_succ _ _ htu, count_succ _ _ htu]
    congr 1
    · split <;> simp [UInt64.ofNat_add, UInt64.add_assoc]
    · split <;> simp [UInt64.ofNat_add, UInt64.add_assoc]

/-- Fewer than `2 ^ 64` moves that leave a counter where it was are none. -/
theorem eq_zero_of_add_ofNat_eq {c : UInt64} {n : Nat} (hn : n < 2 ^ 64)
    (hc : c = c + .ofNat n) : n = 0 := by
  have h := congrArg UInt64.toNat hc
  rw [UInt64.toNat_add, UInt64.toNat_ofNat'] at h
  have := c.toNat_lt
  omega

/-- A segment is left in peace between two steps: nothing of it is invalidated. -/
def Calm (t u : Nat) : Prop :=
  ∀ n, t ≤ n → n < u → ∀ op, h.op n = some op → op.invalidates segment = false

theorem Calm.mono {h : History ν} {segment : String} {t t' u u' : Nat} (hc : h.Calm segment t u)
    (ht : t ≤ t') (hu : u' ≤ u) : h.Calm segment t' u' :=
  fun n h1 h2 => hc n (by omega) (by omega)

theorem does_of_count_eq_zero {p : Op ν → Bool} (hz : h.count p t u = 0) {n : Nat} (h1 : t ≤ n)
    (h2 : n < u) {op : Op ν} (ho : h.op n = some op) : p op = false := by
  by_contra hp
  rw [count, Finset.card_eq_zero] at hz
  have : n ∈ (Finset.Ico t u).filter (h.does p ·) := by
    rw [Finset.mem_filter, Finset.mem_Ico]
    exact ⟨⟨h1, h2⟩, by simpa [does, ho] using hp⟩
  rw [hz] at this
  exact absurd this (Finset.notMem_empty n)

/-- Two equal epochs have no invalidation between them, unless there are enough of them for a counter
to come round. -/
theorem calm_of_epoch_eq (htu : t ≤ u) (few : h.invalidations segment t u < 2 ^ 64)
    (he : (h.cache u).epoch segment = (h.cache t).epoch segment) : h.Calm segment t u := by
  have hall : h.count Op.movesAll t u ≤ h.invalidations segment t u :=
    h.count_le_of_imp (fun op hop => by simp [Op.invalidates, hop]) t u
  have hseg : h.count (Op.movesSegment segment) t u ≤ h.invalidations segment t u :=
    h.count_le_of_imp (fun op hop => by simp [Op.invalidates, hop]) t u
  -- Neither counter has moved, as it would have to come round to be where it was.
  rw [h.epoch_eq_add_count segment htu] at he
  have hg : h.count Op.movesAll t u = 0 :=
    eq_zero_of_add_ofNat_eq (by omega) (congrArg Epoch.generation he).symm
  have hs : h.count (Op.movesSegment segment) t u = 0 :=
    eq_zero_of_add_ofNat_eq (by omega) (congrArg Epoch.segment he).symm
  intro n h1 h2 op ho
  rw [Op.invalidates, h.does_of_count_eq_zero hg h1 h2 ho, h.does_of_count_eq_zero hs h1 h2 ho]
  rfl

/-- Without an invalidation between them two epochs are equal. -/
theorem epoch_eq_of_calm (htu : t ≤ u) (hc : h.Calm segment t u) :
    (h.cache u).epoch segment = (h.cache t).epoch segment := by
  induction u, htu using Nat.le_induction with
  | base => rfl
  | succ u htu ih =>
    rw [epoch_succ, ih (hc.mono le_rfl (Nat.le_succ u))]
    unfold does
    cases ho : h.op u with
    | none => simp
    | some op =>
      have := hc u htu (Nat.lt_succ_self u) op ho
      rw [Op.invalidates, Bool.or_eq_false_iff] at this
      simp [this.1, this.2]

end History

end ReadThrough.Cache
