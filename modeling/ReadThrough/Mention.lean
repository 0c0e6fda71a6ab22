/-!
# Lists in order of first mention

A list is gathered member by member, and a member that is there already is not added again. So each
member stands in it once, where it was first mentioned: `distinct l` has the members of `l`, none of
them twice, and what a second list adds is what the first one lacks.
-/

namespace ReadThrough

variable {α : Type} [DecidableEq α]

/-- A list with one more member, unless it is there. -/
def addOnce (l : List α) (a : α) : List α := if a ∈ l then l else l ++ [a]

/-- A list without repetitions, in order of first mention. -/
def distinct (l : List α) : List α := l.foldl addOnce []

@[simp] theorem mem_addOnce {l : List α} {a b : α} : b ∈ addOnce l a ↔ b ∈ l ∨ b = a := by
  unfold addOnce
  split
  · exact ⟨.inl, fun h => h.elim id fun e => e ▸ ‹a ∈ l›⟩
  · simp

theorem nodup_addOnce {l : List α} (h : l.Nodup) (a : α) : (addOnce l a).Nodup := by
  unfold addOnce
  split
  · exact h
  · rename_i ha
    rw [List.nodup_append]
    refine ⟨h, by simp, fun b hb c hc => ?_⟩
    rw [List.mem_singleton.1 hc]
    exact fun e => ha (e ▸ hb)

/-! ## Many members -/

theorem mem_foldl_addOnce {l m : List α} {b : α} : b ∈ m.foldl addOnce l ↔ b ∈ l ∨ b ∈ m := by
  induction m generalizing l with
  | nil => simp
  | cons a m ih => rw [List.foldl_cons, ih, mem_addOnce, List.mem_cons, or_assoc]

theorem nodup_foldl_addOnce {l : List α} (h : l.Nodup) (m : List α) :
    (m.foldl addOnce l).Nodup := by
  induction m generalizing l with
  | nil => exact h
  | cons a m ih => exact ih (nodup_addOnce h a)

@[simp] theorem mem_distinct {l : List α} {b : α} : b ∈ distinct l ↔ b ∈ l := by
  simp [distinct, mem_foldl_addOnce]

theorem nodup_distinct (l : List α) : (distinct l).Nodup := nodup_foldl_addOnce List.nodup_nil l

/-- A list without repetitions is its own. -/
theorem distinct_eq_self {l : List α} (h : l.Nodup) : distinct l = l := by
  suffices ∀ k : List α, (k ++ l).Nodup → l.foldl addOnce k = k ++ l from this [] h
  clear h
  intro k h
  induction l generalizing k with
  | nil => simp
  | cons a l ih =>
    have ha : a ∉ k := fun hk => (List.nodup_append.1 h).2.2 a hk a List.mem_cons_self rfl
    rw [List.foldl_cons, addOnce, if_neg ha, ih _ (by simpa using h), List.append_assoc,
      List.singleton_append]

end ReadThrough
