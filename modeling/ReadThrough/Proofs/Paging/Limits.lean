import Mathlib.Data.UInt
import ReadThrough.Paging.Limits
/-!
# Sizes and windows

Every size is brought between one and a bound (`clampSize_bounds`), so a page has a row at least. Numbered pages
are of one size, and each begins where the one before ends (`Limits.window_eq`).
-/

namespace ReadThrough

/-- A size is one at least, and no more than the bound allows. -/
theorem clampSize_bounds (n bound : UInt32) :
    1 ≤ (clampSize n bound).toNat ∧ (clampSize n bound).toNat ≤ max 1 bound.toNat := by
  simp only [clampSize, UInt32.toNat_max, UInt32.toNat_min]
  have hone : UInt32.toNat 1 = 1 := rfl
  omega

/-- A size between one and the bound stays as it is. -/
theorem clampSize_eq_self {n bound : UInt32} (hn : 0 < n) (hbound : n ≤ bound) : clampSize n bound = n := by
  rw [UInt32.lt_iff_toNat_lt] at hn
  rw [UInt32.le_iff_toNat_le] at hbound
  refine UInt32.toNat_inj.1 ?_
  simp only [clampSize, UInt32.toNat_max, UInt32.toNat_min]
  have hone : UInt32.toNat 1 = 1 := rfl
  have hzero : UInt32.toNat 0 = 0 := rfl
  omega

namespace Limits

variable (limits : Limits)

theorem first_bounds (first : Option UInt32) :
    1 ≤ (limits.first first).toNat ∧ (limits.first first).toNat ≤ max 1 limits.maxFirst.toNat :=
  clampSize_bounds _ _

theorem pageSize_bounds (size : Option UInt32) :
    1 ≤ (limits.pageSize size).toNat ∧ (limits.pageSize size).toNat ≤ max 1 limits.maxPageSize.toNat :=
  clampSize_bounds _ _

/-- A sample is of the size that is asked for, but no larger than the bound; a bound of zero counts as one. -/
theorem toNat_sample (n : UInt32) :
    (limits.sample n).toNat = min n.toNat (max 1 limits.maxPageSize.toNat) := by
  rw [sample, UInt32.toNat_min, UInt32.toNat_max]
  rfl

theorem sample_bounds {n : UInt32} (hn : 0 < n) :
    1 ≤ (limits.sample n).toNat ∧ (limits.sample n).toNat ≤ max 1 limits.maxPageSize.toNat := by
  have hpos : 0 < n.toNat := UInt32.lt_iff_toNat_lt.1 hn
  rw [toNat_sample]
  omega

/-- Every page but page zero has a window, which begins after the windows of all pages before. No number is
too large for it. -/
theorem window_eq {page : UInt32} (size : Option UInt32) (hpage : page ≠ 0) :
    ∃ w, limits.window page size = .ok w ∧
      w.skip.toNat = (page.toNat - 1) * (limits.pageSize size).toNat ∧
      w.take.toNat = (limits.pageSize size).toNat ∧ w.skip.toNat + w.take.toNat < 2 ^ 64 := by
  generalize hs : limits.pageSize size = s
  have hbefore : (page - 1).toNat = page.toNat - 1 := by
    refine UInt32.toNat_sub_of_le _ _ (UInt32.le_iff_toNat_le.2 ?_)
    exact Nat.one_le_iff_ne_zero.2 fun hzero => hpage (UInt32.toNat_inj.1 hzero)
  have hrows : (page.toNat - 1) * s.toNat + s.toNat < 2 ^ 64 := by
    have hfactor : page.toNat - 1 + 1 ≤ 2 ^ 32 - 1 := by
      have := page.toNat_lt
      omega
    have hsize : s.toNat ≤ 2 ^ 32 - 1 := Nat.le_sub_one_of_lt s.toNat_lt
    calc (page.toNat - 1) * s.toNat + s.toNat = (page.toNat - 1 + 1) * s.toNat := by rw [Nat.succ_mul]
      _ ≤ (2 ^ 32 - 1) * (2 ^ 32 - 1) := Nat.mul_le_mul hfactor hsize
      _ < 2 ^ 64 := by decide
  have hskip : ((page - 1).toUInt64 * s.toUInt64).toNat = (page.toNat - 1) * s.toNat := by
    rw [UInt64.toNat_mul, UInt32.toNat_toUInt64, UInt32.toNat_toUInt64, hbefore]
    exact Nat.mod_eq_of_lt (Nat.lt_of_le_of_lt (Nat.le_add_right _ _) hrows)
  refine ⟨{ skip := (page - 1).toUInt64 * s.toUInt64, take := s.toUInt64 }, ?_, hskip, ?_, ?_⟩
  · rw [window, if_neg hpage, hs]
  · exact UInt32.toNat_toUInt64 s
  · rw [hskip, UInt32.toNat_toUInt64]
    exact hrows

end Limits

end ReadThrough
