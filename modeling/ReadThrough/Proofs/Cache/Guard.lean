import ReadThrough.Proofs.Cache.History
/-!
# What an epoch guards against

A value may be stored under an epoch that was taken some time ago. It is stored exactly if nothing of its
segment has been invalidated since (`History.epoch_guard`). Whatever else has been done to the cache makes
no difference: values that were stored, read, purged or let go when they were expired, and invalidations of
other segments. It makes no difference either whether anything had been done to the segment before.
-/

namespace ReadThrough.Cache.History

variable {ν : Type}

/-- The history in which given things are done to a cache, at most one at every step. -/
def ofOps (c : Cache ν) (clock : Nat → Nat) (op : Nat → Option (Op ν)) : History ν where
  cache n := Nat.rec c (fun n c => (op n).elim c fun op => op.apply (clock n) c) n
  clock := clock
  op := op
  next _ := rfl

variable (h : History ν) (segment : String) {t u : Nat}

/-- What comes of storing a value at step `u` under the epoch of step `t`. -/
def storeUnder (t u : Nat) (k : Key) (v : ν) : Bool × Cache ν :=
  (h.cache u).setIfCurrent (h.clock u) segment k v ((h.cache t).epoch segment)

/-- Two epochs of a segment are equal exactly if it has been left in peace between them. -/
theorem epoch_eq_iff_calm (htu : t ≤ u) (few : h.invalidations segment t u < 2 ^ 64) :
    (h.cache u).epoch segment = (h.cache t).epoch segment ↔ h.Calm segment t u :=
  ⟨h.calm_of_epoch_eq segment htu few, h.epoch_eq_of_calm segment htu⟩

/-- Whether a value is stored is whether the epoch is still that of the cache. -/
theorem storeUnder_fst (t u : Nat) (k : Key) (v : ν) :
    (h.storeUnder segment t u k v).1 = true ↔
      (h.cache u).epoch segment = (h.cache t).epoch segment := by
  unfold storeUnder setIfCurrent isCurrent
  split
  · rename_i hc
    exact ⟨fun _ => of_decide_eq_true hc, fun _ => rfl⟩
  · rename_i hc
    exact ⟨nofun, fun he => absurd (decide_eq_true he) hc⟩

/-- A value that is stored is found, everything else is found as before, and no epoch moves. -/
theorem storeUnder_of_fst {k : Key} {v : ν} (hs : (h.storeUnder segment t u k v).1 = true) :
    (∀ s' k', (h.storeUnder segment t u k v).2.find? s' k' =
        if s' = segment ∧ k' = k then
          some { value := v, expires := h.clock u + (h.cache u).ttl.toNat }
        else (h.cache u).find? s' k') ∧
      ∀ s', (h.storeUnder segment t u k v).2.epoch s' = (h.cache u).epoch s' := by
  have he : (h.cache u).isCurrent segment ((h.cache t).epoch segment) = true :=
    decide_eq_true ((h.storeUnder_fst segment t u k v).1 hs)
  have hset : (h.storeUnder segment t u k v).2 = (h.cache u).set (h.clock u) segment k v := by
    rw [storeUnder, setIfCurrent, if_pos he]
  rw [hset]
  exact ⟨fun s' k' => find?_set _ _ _ _ _ _ _, fun s' => epoch_set _ _ _ _ _ _⟩

/-- A value that is not stored leaves the cache as it is. -/
theorem storeUnder_of_not_fst {k : Key} {v : ν} (hs : (h.storeUnder segment t u k v).1 = false) :
    (h.storeUnder segment t u k v).2 = h.cache u := by
  unfold storeUnder setIfCurrent at hs ⊢
  split at hs
  · cases hs
  · rename_i hc
    rw [if_neg hc]

/-- A value is stored under an epoch exactly if the segment has been left in peace since. Then it is found
under its key and nothing else changes; otherwise the cache stays as it is, so that every entry, every epoch
and whatever anybody reads are what they were. And two epochs of a segment are equal exactly if it has been
left in peace between them. -/
theorem epoch_guard (htu : t ≤ u) (few : h.invalidations segment t u < 2 ^ 64) (k : Key) (v : ν) :
    ((h.storeUnder segment t u k v).1 = true ↔ h.Calm segment t u) ∧
      (h.Calm segment t u →
        (∀ s' k', (h.storeUnder segment t u k v).2.find? s' k' =
          if s' = segment ∧ k' = k then
            some { value := v, expires := h.clock u + (h.cache u).ttl.toNat }
          else (h.cache u).find? s' k') ∧
        ∀ s', (h.storeUnder segment t u k v).2.epoch s' = (h.cache u).epoch s') ∧
      (¬ h.Calm segment t u → h.storeUnder segment t u k v = (false, h.cache u)) ∧
      ((h.cache u).epoch segment = (h.cache t).epoch segment ↔ h.Calm segment t u) := by
  have hepoch := h.epoch_eq_iff_calm segment htu few
  have hstored : (h.storeUnder segment t u k v).1 = true ↔ h.Calm segment t u :=
    (h.storeUnder_fst segment t u k v).trans hepoch
  refine ⟨hstored, fun hc => h.storeUnder_of_fst segment (hstored.2 hc), fun hc => ?_, hepoch⟩
  have hfalse : (h.storeUnder segment t u k v).1 = false :=
    Bool.eq_false_of_not_eq_true fun hs => hc (hstored.1 hs)
  exact Prod.ext hfalse (h.storeUnder_of_not_fst segment hfalse)

/-- A cache in which much is done that does not concern the segment `a`, until a row of it is deleted that
is not there. -/
def bustle : History Nat :=
  ofOps { ttl := 1500 } (1000 * ·) fun n =>
    [.set "a" (.int 1) 7, .set "b" (.int 1) 8, .get "a" (.int 1), .get "b" (.int 1), .purge,
      .clearSegment "b", .delete "c" (.text "x"), .delete "a" (.int 2)][n]?

/-- An epoch holds through all that does not concern its segment, and not beyond. -/
theorem epoch_guard_bustle :
    bustle.invalidations "a" 0 7 < 2 ^ 64 ∧ bustle.invalidations "a" 0 8 < 2 ^ 64 ∧
      bustle.Calm "a" 0 7 ∧ ¬ bustle.Calm "a" 0 8 ∧
      (bustle.storeUnder "a" 0 7 (.int 2) 9).1 = true ∧
      bustle.storeUnder "a" 0 8 (.int 2) 9 = (false, bustle.cache 8) := by
  have few : ∀ u ≤ 8, bustle.invalidations "a" 0 u < 2 ^ 64 := fun u hu =>
    Nat.lt_of_le_of_lt (bustle.invalidations_le "a" 0 u) (by omega)
  have hcalm : bustle.Calm "a" 0 7 := by
    intro n _ hn op ho
    match n, hn with
    | 0, _ | 1, _ | 2, _ | 3, _ | 4, _ | 5, _ | 6, _ =>
      cases ho
      rfl
  have hdeleted : ¬ bustle.Calm "a" 0 8 := fun hc => nomatch hc 7 (by omega) (by omega) _ rfl
  have hheld := epoch_guard bustle "a" (show 0 ≤ 7 by omega) (few 7 (by omega)) (.int 2) 9
  have hpast := epoch_guard bustle "a" (show 0 ≤ 8 by omega) (few 8 (by omega)) (.int 2) 9
  exact ⟨few 7 (by omega), few 8 (by omega), hcalm, hdeleted, hheld.1.2 hcalm, hpast.2.2.1 hdeleted⟩

end ReadThrough.Cache.History
