import Mathlib.Algebra.GroupWithZero.Nat
import ReadThrough.Text.Uuid
/-!
# Identifiers that are written are read back

The digits of a number are read as the number (`ofDigits?_digits`), and putting them into groups and
taking the hyphens out again gives them back (`unhyphenate?_hyphenate`). So the text of an identifier
is read as that identifier (`ofString?_toString`).
-/

namespace ReadThrough.Uuid

/-! ## Digits -/

theorem length_digits (count n : Nat) : (digits count n).length = count := by
  induction count generalizing n with
  | zero => rfl
  | succ count ih => rw [digits, List.length_append, ih, List.length_singleton]

/-- All that is written are digits. -/
theorem eq_digit_of_mem {count n : Nat} {c : Char} (h : c ∈ digits count n) :
    ∃ d : Fin 16, c = Hex.digit d := by
  induction count generalizing n with
  | zero => cases h
  | succ count ih =>
    rcases List.mem_append.1 h with h | h
    · exact ih h
    · exact ⟨⟨n % 16, Nat.mod_lt _ (by decide)⟩, List.mem_singleton.1 h⟩

/-- The last digits of a number are read as what the number leaves. -/
theorem ofDigits?_digits (count n : Nat) : ofDigits? (digits count n) = some (n % 16 ^ count) := by
  induction count generalizing n with
  | zero =>
    rw [Nat.pow_zero, Nat.mod_one]
    rfl
  | succ count ih =>
    have hlast : Hex.value? (Hex.digit (n % 16)) = some (n % 16) :=
      Hex.value?_digit ⟨n % 16, Nat.mod_lt _ (by decide)⟩
    have hsum : n / 16 % 16 ^ count * 16 + n % 16 = n % 16 ^ (count + 1) := by
      rw [Nat.pow_succ, Nat.mul_comm (16 ^ count) 16, Nat.mod_mul]
      omega
    have hfront := ih (n / 16)
    rw [ofDigits?] at hfront
    rw [ofDigits?, digits, List.foldlM_append, hfront]
    simp [hlast, hsum]

/-! ## Groups -/

theorem length_hyphenate {ns : List Nat} {cs : List Char} (hns : ns ≠ []) (h : cs.length = ns.sum) :
    (hyphenate ns cs).length + 1 = cs.length + ns.length := by
  induction ns generalizing cs with
  | nil => exact absurd rfl hns
  | cons n ns ih =>
    cases ns with
    | nil =>
      have hn : cs.length = n := by simpa using h
      simp [hyphenate, hn]
    | cons m ns =>
      rw [List.sum_cons] at h
      have hdrop : (cs.drop n).length = (m :: ns).sum := by
        rw [List.length_drop]
        omega
      have hrest := ih (List.cons_ne_nil _ _) hdrop
      rw [List.length_drop] at hrest
      rw [hyphenate, List.length_append, List.length_cons, List.length_take, List.length_cons]
      · omega
      · exact List.cons_ne_nil _ _

/-- Without their hyphens the groups are the digits again. -/
theorem unhyphenate?_hyphenate {ns : List Nat} {cs : List Char} (hns : ns ≠ [])
    (h : cs.length = ns.sum) : unhyphenate? ns (hyphenate ns cs) = some cs := by
  induction ns generalizing cs with
  | nil => exact absurd rfl hns
  | cons n ns ih =>
    cases ns with
    | nil =>
      have hn : cs.length = n := by simpa using h
      rw [hyphenate, List.take_of_length_le (Nat.le_of_eq hn), unhyphenate?, if_pos hn]
    | cons m ns =>
      rw [List.sum_cons] at h
      have hdrop : (cs.drop n).length = (m :: ns).sum := by
        rw [List.length_drop]
        omega
      have hrest := ih (List.cons_ne_nil _ _) hdrop
      have htake : (cs.take n).length = n := by
        rw [List.length_take]
        omega
      have hsplit : hyphenate (n :: m :: ns) cs =
          cs.take n ++ '-' :: hyphenate (m :: ns) (cs.drop n) := by
        rw [hyphenate]
        exact List.cons_ne_nil _ _
      have hjoin : ∀ rest, unhyphenate? (n :: m :: ns) (cs.take n ++ '-' :: rest) =
          (unhyphenate? (m :: ns) rest).map (cs.take n ++ ·) := by
        intro rest
        rw [unhyphenate?, List.drop_left' htake, List.take_left' htake, List.length_append, htake,
          if_pos (Nat.le_add_right _ _)]
        · rfl
        · exact List.cons_ne_nil _ _
      rw [hsplit, hjoin, hrest, Option.map_some, List.take_append_drop]

/-! ## Whole texts -/

/-- An identifier begins with a digit, and so neither with a brace nor with the name of a scheme. -/
theorem strip_of_digit (d : Fin 16) (cs : List Char) : strip (Hex.digit d :: cs) = none := by
  have hbrace : Hex.digit d ≠ '{' := by
    revert d
    decide
  have hscheme : (Hex.digit d).toLower ≠ 'u' := by
    revert d
    decide
  have htake : ((Hex.digit d :: cs).take scheme.length).map Char.toLower ≠ scheme := by
    intro h
    exact hscheme (List.cons.inj h).1
  rw [strip]
  · rw [if_neg htake]
  · intro rest h
    exact hbrace (List.cons.inj h).1

/-- The text of an identifier is read as that identifier. -/
theorem ofString?_toString (u : Uuid) : ofString? u.toString = some u := by
  have hlength : (digits 32 u.bits.toNat).length = groups.sum := length_digits 32 _
  have hgroups : groups ≠ [] := List.cons_ne_nil _ _
  have hlong := length_hyphenate hgroups hlength
  rw [length_digits] at hlong
  have hne : (hyphenate groups (digits 32 u.bits.toNat)).length ≠ 32 := by
    have : groups.length = 5 := rfl
    omega
  -- With its hyphens the text is longer than 32 digits, and nothing stands around it.
  have hstrip : strip (hyphenate groups (digits 32 u.bits.toNat)) = none := by
    cases hd : digits 32 u.bits.toNat with
    | nil =>
      have := length_digits 32 u.bits.toNat
      rw [hd] at this
      cases this
    | cons c cs =>
      obtain ⟨d, rfl⟩ := eq_digit_of_mem (hd ▸ List.mem_cons_self (a := c) (l := cs))
      exact strip_of_digit d _
  have hread : ofDigits? (digits 32 u.bits.toNat) = some u.bits.toNat := by
    have hlt := u.bits.isLt
    rw [ofDigits?_digits, Nat.mod_eq_of_lt (by omega)]
  rw [ofString?, toString, String.toList_ofList, if_neg hne, hstrip, Option.getD_none,
    unhyphenate?_hyphenate hgroups hlength]
  simp [hread]

end ReadThrough.Uuid
