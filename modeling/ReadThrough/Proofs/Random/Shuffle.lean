import Mathlib.Data.Nat.Factorial.Basic
import ReadThrough.Random.Source
/-!
# Shuffling draws a place for each member

A number that is drawn below a bound is below it (`ChaCha.below_lt`), although it may have been corrected
upwards. So is what a chunk is taken apart into: a chunk that serves for `k` places from the `n`-th on is
below the product of `k` successive bounds (`Chunk.Fits`), and taking one place out of it leaves a chunk that
fits the places that follow. Hence a list of any length is shuffled by exchanging each member with one at its
place or before (`ChaCha.partners_le`), and no member is lost (`RandomSource.shuffle_perm`).
-/

namespace ReadThrough

namespace ChaCha

/-! ## Numbers below a bound -/

/-- The low part of a product with a bound leaves room for the bound, if the high part is the greatest. So
the correction never comes to the bound. -/
theorem below_lt {size bound : Nat} {word : ChaCha → Nat × ChaCha} (hword : ∀ g, (word g).1 < size)
    (hbound : 0 < bound) (g : ChaCha) : (below size word g bound).1 < bound := by
  have hx : (word g).1 + 1 ≤ size := hword g
  generalize hhigh : (word g).1 * bound / size = high
  generalize hlow : (word g).1 * bound % size = low
  have hproduct : size * high + low = (word g).1 * bound := by
    rw [← hhigh, ← hlow]
    exact Nat.div_add_mod _ _
  have hroom : (word g).1 * bound + bound ≤ size * bound := by
    calc (word g).1 * bound + bound = ((word g).1 + 1) * bound := by rw [Nat.succ_mul]
      _ ≤ size * bound := Nat.mul_le_mul_right bound hx
  have hlt : high < bound := by
    apply Nat.lt_of_mul_lt_mul_left (a := size)
    omega
  have hstep : size - bound < low → high + 1 < bound := by
    intro hnear
    apply Nat.lt_of_mul_lt_mul_left (a := size)
    rw [Nat.mul_succ]
    omega
  unfold below
  simp only [hhigh, hlow]
  split
  · rename_i hnear
    dsimp only
    split
    · exact hstep hnear
    · exact hlt
  · exact hlt

theorem below32_lt {bound : Nat} (hbound : 0 < bound) (g : ChaCha) : (g.below32 bound).1 < bound :=
  below_lt (fun g => g.next.1.toNat_lt) hbound g

theorem below64_lt {bound : Nat} (hbound : 0 < bound) (g : ChaCha) : (g.below64 bound).1 < bound :=
  below_lt (fun g => g.next64.1.toNat_lt) hbound g

/-! ## Chunks -/

/-- The product of successive factors stays one. -/
theorem factorsFrom_eq (n steps : Nat) {count : Nat} (hcount : 1 ≤ count) :
    ∃ k, 1 ≤ k ∧ factorsFrom steps (n.ascFactorial count) (n + count) count = (n.ascFactorial k, k) := by
  induction steps generalizing count with
  | zero => exact ⟨count, hcount, rfl⟩
  | succ steps ih =>
    unfold factorsFrom
    split
    · have hnext : n.ascFactorial count * (n + count) = n.ascFactorial (count + 1) := by
        rw [Nat.ascFactorial_succ, Nat.mul_comm]
      rw [hnext]
      exact ih (Nat.succ_pos count)
    · exact ⟨count, hcount, rfl⟩

theorem ascFactorial_one (n : Nat) : n.ascFactorial 1 = n := Nat.mul_one n

theorem factors_eq (n : Nat) : ∃ k, 1 ≤ k ∧ factors n = (n.ascFactorial k, k) := by
  have h := factorsFrom_eq n 32 (Nat.le_refl 1)
  rwa [ascFactorial_one] at h

/-- A chunk is below the product of the bounds of the places that it serves for, from the `n`-th on. -/
def Chunk.Fits (chunk : Chunk) (n : Nat) : Prop :=
  chunk.left ≠ 0 → chunk.value < n.ascFactorial chunk.left

/-- A place is taken out of a chunk that serves for one at least, since a chunk that has been used up is drawn
anew. -/
theorem place_eq {n : Nat} (hn : 0 < n) {chunk : Chunk} (hchunk : chunk.Fits n) (g : ChaCha) :
    ∃ (full : Chunk) (g' : ChaCha), full.left ≠ 0 ∧ full.Fits n ∧
      g.place chunk n = if full.left = 1 then (full.value, { full with left := 0 }, g')
        else (full.value % n, { value := full.value / n, left := full.left - 1 }, g') := by
  by_cases hempty : chunk.left = 0
  · obtain ⟨k, hk, hfactors⟩ := factors_eq n
    have hpos : 0 < n.ascFactorial k := by
      obtain ⟨m, rfl⟩ : ∃ m, n = m + 1 := ⟨n - 1, by omega⟩
      exact Nat.ascFactorial_pos m k
    refine ⟨{ value := (g.below32 (n.ascFactorial k)).1, left := k }, (g.below32 (n.ascFactorial k)).2,
      Nat.ne_of_gt hk, fun _ => below32_lt hpos g, ?_⟩
    rw [place, if_pos hempty, hfactors]
  · refine ⟨chunk, g, hempty, hchunk, ?_⟩
    rw [place, if_neg hempty]

/-- The place is one of those before its bound, and what is left of the chunk fits the places that follow. -/
theorem place_lt {n : Nat} (hn : 0 < n) {chunk : Chunk} (hchunk : chunk.Fits n) (g : ChaCha) :
    (g.place chunk n).1 < n ∧ (g.place chunk n).2.1.Fits (n + 1) := by
  obtain ⟨full, g', hleft, hfits, hplace⟩ := place_eq hn hchunk g
  have hvalue := hfits hleft
  rw [hplace]
  split
  · rename_i hlast
    rw [hlast, ascFactorial_one] at hvalue
    exact ⟨hvalue, fun h => absurd rfl h⟩
  · obtain ⟨left, hsucc⟩ : ∃ left, full.left = left + 1 := ⟨full.left - 1, by omega⟩
    refine ⟨Nat.mod_lt _ hn, fun _ => ?_⟩
    apply Nat.div_lt_of_lt_mul
    rw [hsucc] at hvalue ⊢
    rw [Nat.add_sub_cancel, Nat.succ_ascFactorial, ← Nat.ascFactorial_succ]
    exact hvalue

/-! ## Places -/

/-- There are so many places, and each is the place of its member or one before. The first member is at
place `n`. -/
def Backward (count n : Nat) (places : List Nat) : Prop :=
  places.length = count ∧ ∀ p ∈ places.zipIdx n, p.1 ≤ p.2

theorem Backward.cons {count n i : Nat} {places : List Nat} (hi : i < n + 1)
    (h : Backward count (n + 1) places) : Backward (count + 1) n (i :: places) := by
  refine ⟨congrArg (· + 1) h.1, ?_⟩
  intro p hp
  rcases List.mem_cons.1 hp with rfl | hp
  · exact Nat.le_of_lt_succ hi
  · exact h.2 p hp

theorem backward_places (count : Nat) {n : Nat} (g : ChaCha) {chunk : Chunk} (hchunk : chunk.Fits (n + 1)) :
    Backward count n (places count n g chunk).1 := by
  induction count generalizing n g chunk with
  | zero => exact ⟨rfl, nofun⟩
  | succ count ih =>
    obtain ⟨hlt, hrest⟩ := place_lt (Nat.succ_pos n) hchunk g
    exact .cons hlt (ih _ hrest)

theorem backward_placesApart (count n : Nat) (g : ChaCha) : Backward count n (placesApart count n g).1 := by
  induction count generalizing n g with
  | zero => exact ⟨rfl, nofun⟩
  | succ count ih =>
    generalize hdraw : (if n + 1 < UInt32.size then g.below32 (n + 1) else g.below64 (n + 1)) = draw
    have hlt : draw.1 < n + 1 := by
      rw [← hdraw]
      split
      · exact below32_lt (Nat.succ_pos n) g
      · exact below64_lt (Nat.succ_pos n) g
    rw [placesApart, hdraw]
    exact .cons hlt (ih (n + 1) draw.2)

/-- A place is drawn for each member of a list, whatever its length, at the member's place or before. -/
theorem partners_le (g : ChaCha) (length : Nat) :
    (g.partners length).1.length = length ∧ ∀ p ∈ (g.partners length).1.zipIdx, p.1 ≤ p.2 ∧ p.2 < length := by
  have hdrawn : Backward length 0 (g.partners length).1 := by
    unfold partners
    split
    · apply backward_places length g
      intro _
      exact Nat.ascFactorial_pos 0 1
    · exact backward_placesApart length 0 g
  refine ⟨hdrawn.1, ?_⟩
  intro p hp
  have hlt := List.snd_lt_add_of_mem_zipIdx hp
  rw [hdrawn.1, Nat.zero_add] at hlt
  exact ⟨hdrawn.2 p hp, hlt⟩

/-! ## Orders -/

variable {α : Type}

theorem exchange_perm (l : List α) (i j : Nat) : (exchange l i j).Perm l := by
  unfold exchange
  split
  · rename_i a b ha hb
    obtain ⟨hi, rfl⟩ := List.getElem?_eq_some_iff.1 ha
    obtain ⟨hj, rfl⟩ := List.getElem?_eq_some_iff.1 hb
    exact List.set_set_perm hi hj
  · exact .refl l

theorem shuffle_perm (g : ChaCha) (l : List α) : (g.shuffle l).1.Perm l := by
  have hfold : ∀ (ps : List (Nat × Nat)) (l : List α),
      (ps.foldl (fun l p => exchange l p.2 p.1) l).Perm l := by
    intro ps
    induction ps with
    | nil => exact .refl
    | cons p ps ih => exact fun l => (ih _).trans (exchange_perm l p.2 p.1)
  unfold shuffle
  split
  · exact .refl l
  · exact hfold _ l

end ChaCha

theorem Arrangement.apply_perm {α : Type} (a : Arrangement) (l : List α) : (a.apply l).Perm l := by
  cases a with
  | identity => exact .refl l
  | reverse => exact l.reverse_perm
  | rotate =>
    refine List.perm_append_comm.trans ?_
    rw [List.take_append_drop]

/-- A list in random order has the members of the list. -/
theorem RandomSource.shuffle_perm {α : Type} (source : RandomSource) (l : List α) :
    (source.shuffle l).1.Perm l := by
  cases source with
  | stream g => exact g.shuffle_perm l
  | script units drawn arrangement => exact arrangement.apply_perm l

/-! ## Windows -/

/-- A window is within the rows, whatever fraction has been drawn. -/
theorem windowStart_add_le (count n : UInt64) (r : Float) :
    (windowStart count n r).toNat + min n.toNat count.toNat ≤ count.toNat := by
  unfold windowStart
  split
  · rename_i hcovers
    rw [UInt64.le_iff_toNat_le] at hcovers
    show 0 + _ ≤ _
    omega
  · rename_i hfits
    rw [UInt64.le_iff_toNat_le, Nat.not_le] at hfits
    have hspan : (count - n).toNat = count.toNat - n.toNat :=
      UInt64.toNat_sub_of_le _ _ (UInt64.le_iff_toNat_le.2 (Nat.le_of_lt hfits))
    have hstart : (min (clampUnit r * (count - n).toFloat).floor.toUInt64 (count - n)).toNat ≤
        (count - n).toNat := by
      rw [UInt64.toNat_min]
      exact Nat.min_le_right _ _
    dsimp only
    omega

end ReadThrough
