import Mathlib.Data.List.Nodup
import ReadThrough.Mention
/-!
# Members in order of first mention

Gathering goes on where it was left off, so the members of two lists in a row are those of the first and then those of
the second that the first one lacks (`distinct_append`). Without gathering, a list of first mentions is known by its
members and their order, and there is one such list only (`FirstMentions.eq`). It is what gathering leaves
(`firstMentions_distinct`).
-/

namespace ReadThrough

variable {α β : Type}

/-! ## One list after another -/

section

variable [DecidableEq α]

/-- What is gathered on top of a list are the members that it lacks. -/
theorem foldl_addOnce (l m : List α) : m.foldl addOnce l = l ++ (distinct m).filter (· ∉ l) := by
  induction m generalizing l with
  | nil => simp [distinct]
  | cons a m ih =>
    have hcons : distinct (a :: m) = a :: (distinct m).filter (· ∉ [a]) := ih [a]
    rw [List.foldl_cons, ih, hcons]
    by_cases ha : a ∈ l
    · have hlacked : ((distinct m).filter (· ∉ [a])).filter (· ∉ l) = (distinct m).filter (· ∉ l) := by
        rw [List.filter_filter]
        refine List.filter_congr fun b _ => ?_
        have hne : b ∉ l → b ≠ a := fun hb e => hb (e ▸ ha)
        simpa using hne
      rw [addOnce, if_pos ha, List.filter_cons_of_neg (by simpa using ha), hlacked]
    · have hlacked : ((distinct m).filter (· ∉ [a])).filter (· ∉ l) = (distinct m).filter (· ∉ l ++ [a]) := by
        rw [List.filter_filter]
        refine List.filter_congr fun b _ => ?_
        simp
      rw [addOnce, if_neg ha, List.filter_cons_of_pos (by simpa using ha), hlacked, List.append_assoc,
        List.singleton_append]

theorem distinct_cons (a : α) (m : List α) : distinct (a :: m) = a :: (distinct m).filter (· ≠ a) := by
  have hcons : distinct (a :: m) = a :: (distinct m).filter (· ∉ [a]) := foldl_addOnce [a] m
  simpa using hcons

/-- What a second list adds is what the first one lacks. -/
theorem distinct_append (l m : List α) :
    distinct (l ++ m) = distinct l ++ (distinct m).filter (· ∉ distinct l) := by
  rw [distinct, List.foldl_append]
  exact foldl_addOnce (distinct l) m

end

/-! ## First mentions -/

section

variable (M : β → α → Prop) (sources : List β)

/-- Some source mentions `a`, and none before it mentions `b`. -/
def MentionedBefore (a b : α) : Prop :=
  ∃ front source back, sources = front ++ source :: back ∧ M source a ∧ ∀ s ∈ front, ¬ M s b

/-- A list of what is mentioned and has some property, each once, in order of first mention. -/
structure FirstMentions (p : α → Prop) (l : List α) : Prop where
  mem_iff : ∀ a, a ∈ l ↔ p a ∧ ∃ source ∈ sources, M source a
  nodup : l.Nodup
  ordered : l.Pairwise (MentionedBefore M sources)

end

variable {M : β → α → Prop} {sources : List β} {p : α → Prop} {l m : List α}

/-- Where no source mentions more than one thing, no two things are mentioned before each other. -/
theorem MentionedBefore.antisymm (hM : ∀ s a b, M s a → M s b → a = b) {a b : α}
    (hab : MentionedBefore M sources a b) (hba : MentionedBefore M sources b a) : a = b := by
  obtain ⟨front, s, back, rfl, hs, hfront⟩ := hab
  obtain ⟨front', s', back', heq, hs', hfront'⟩ := hba
  -- Of the two sources one stands before the other, unless they are the same.
  rcases List.append_eq_append_iff.1 heq with ⟨between, rfl, htail⟩ | ⟨between, rfl, htail⟩
  · cases between with
    | nil =>
      cases htail
      exact hM s a b hs hs'
    | cons t between =>
      cases htail
      exact absurd hs (hfront' s (by simp))
  · cases between with
    | nil =>
      cases htail
      exact hM s a b hs hs'
    | cons t between =>
      cases htail
      exact absurd hs' (hfront s' (by simp))

theorem FirstMentions.eq (hM : ∀ s a b, M s a → M s b → a = b) (hl : FirstMentions M sources p l)
    (hm : FirstMentions M sources p m) : l = m := by
  have hperm : l.Perm m := (List.perm_ext_iff_of_nodup hl.nodup hm.nodup).2 fun a => by
    rw [hl.mem_iff, hm.mem_iff]
  exact hperm.eq_of_pairwise (fun _ _ _ _ hab => hab.antisymm hM) hl.ordered hm.ordered

/-- The first mentions of what sources mention, one thing each, and a test accepts. -/
theorem firstMentions_distinct [DecidableEq α] (f : β → α) (test : α → Bool) (sources : List β) :
    FirstMentions (fun s a => f s = a) sources (test · = true) (distinct ((sources.map f).filter test)) where
  mem_iff a := by
    rw [mem_distinct, List.mem_filter, List.mem_map]
    exact and_comm
  nodup := nodup_distinct _
  ordered := by
    induction sources with
    | nil => exact .nil
    | cons s sources ih =>
      -- One more source in front changes nothing for what it does not mention.
      have hfront : ∀ a b, f s ≠ b → MentionedBefore (fun s a => f s = a) sources a b →
          MentionedBefore (fun s a => f s = a) (s :: sources) a b := by
        rintro a b hb ⟨front, t, back, rfl, ht, hfront⟩
        exact ⟨s :: front, t, back, rfl, ht, List.forall_mem_cons.2 ⟨hb, hfront⟩⟩
      rw [List.map_cons]
      by_cases hs : test (f s) = true
      · rw [List.filter_cons_of_pos hs, distinct_cons, List.pairwise_cons]
        refine ⟨fun b _ => ⟨[], s, sources, rfl, rfl, nofun⟩, ?_⟩
        refine (ih.filter _).imp_of_mem fun {a b} _ hb => hfront a b ?_
        rintro rfl
        simp at hb
      · rw [List.filter_cons_of_neg hs]
        refine ih.imp_of_mem fun {a b} _ hb => hfront a b ?_
        rintro rfl
        rw [mem_distinct] at hb
        exact hs (List.mem_filter.1 hb).2

end ReadThrough
