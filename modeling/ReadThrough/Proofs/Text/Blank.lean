import Mathlib.Data.List.DropRight
import ReadThrough.Text.Blank
/-!
# What stands between blanks

A text without the blanks at its two ends is the one part of it that has blanks only around it, and none at its own ends
(`trimBlanks_eq_iff`).
-/

namespace ReadThrough

/-- Neither the first nor the last character of a text is blank. -/
structure Bare (cs : List Char) : Prop where
  first : ∀ c ∈ cs.head?, isBlank c = false
  last : ∀ c ∈ cs.getLast?, isBlank c = false

variable {cs ds before after : List Char}

theorem trimBlanks_eq (cs : List Char) : trimBlanks cs = (cs.dropWhile isBlank).rdropWhile isBlank := rfl

theorem bare_trimBlanks (cs : List Char) : Bare (trimBlanks cs) where
  first := by
    intro c hc
    -- The text begins as it did before its last blanks were taken off.
    obtain ⟨rest, hrest⟩ := List.rdropWhile_prefix isBlank (cs.dropWhile isBlank)
    have hhead : (cs.dropWhile isBlank).head? = some c := by
      rw [← hrest, List.head?_append, ← trimBlanks_eq, hc, Option.some_or]
    have hblank := List.head?_dropWhile_not isBlank cs
    rwa [hhead] at hblank
  last := by
    rw [trimBlanks_eq]
    intro c hc
    obtain ⟨hne, rfl⟩ := List.mem_getLast?_eq_getLast hc
    exact Bool.eq_false_iff.2 (List.rdropWhile_last_not isBlank _ hne)

/-- A text is what is left of it without the blanks at its ends, and blanks around that. -/
theorem exists_eq_append_trimBlanks (cs : List Char) :
    ∃ before after, cs = before ++ trimBlanks cs ++ after ∧ ∀ c ∈ before ++ after, isBlank c = true := by
  refine ⟨cs.takeWhile isBlank, (cs.dropWhile isBlank).rtakeWhile isBlank, ?_, fun c hc => ?_⟩
  · rw [trimBlanks_eq, List.append_assoc, List.rdropWhile_append_rtakeWhile, List.takeWhile_append_dropWhile]
  · rcases List.mem_append.1 hc with hc | hc
    · exact List.mem_takeWhile_imp hc
    · exact List.mem_rtakeWhile_imp hc

/-- No blanks are dropped in front of a text that does not begin with one. -/
theorem dropWhile_isBlank_of_first (h : ∀ c ∈ cs.head?, isBlank c = false) : cs.dropWhile isBlank = cs := by
  cases cs with
  | nil => rfl
  | cons c cs => rw [List.dropWhile_cons_of_neg (by simp [h c rfl])]

theorem trimBlanks_append (h : Bare ds) (hblank : ∀ c ∈ before ++ after, isBlank c = true) :
    trimBlanks (before ++ ds ++ after) = ds := by
  obtain ⟨hbefore, hafter⟩ := List.forall_mem_append.1 hblank
  have hfront : (before ++ ds ++ after).dropWhile isBlank = (ds ++ after).dropWhile isBlank := by
    rw [List.append_assoc, List.dropWhile_append_of_pos hbefore]
  rw [trimBlanks, hfront]
  cases ds with
  | nil =>
    rw [List.nil_append, List.dropWhile_eq_nil_iff.2 hafter]
    rfl
  | cons d ds =>
    have hafter' : ∀ c ∈ after.reverse, isBlank c = true := fun c hc => hafter c (List.mem_reverse.1 hc)
    have hfirst : (d :: ds ++ after).dropWhile isBlank = d :: ds ++ after := dropWhile_isBlank_of_first h.first
    have hlast : (d :: ds).reverse.dropWhile isBlank = (d :: ds).reverse := by
      refine dropWhile_isBlank_of_first ?_
      rw [List.head?_reverse]
      exact h.last
    rw [hfirst, List.reverse_append, List.dropWhile_append_of_pos hafter', hlast, List.reverse_reverse]

/-- What is left of a text is the part of it with blanks around it, and none at its own ends. -/
theorem trimBlanks_eq_iff : trimBlanks cs = ds ↔
    Bare ds ∧ ∃ before after, cs = before ++ ds ++ after ∧ ∀ c ∈ before ++ after, isBlank c = true := by
  constructor
  · rintro rfl
    exact ⟨bare_trimBlanks cs, exists_eq_append_trimBlanks cs⟩
  · rintro ⟨hbare, before, after, rfl, hblank⟩
    exact trimBlanks_append hbare hblank

end ReadThrough
