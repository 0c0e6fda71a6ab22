import ReadThrough.Key.Json
import ReadThrough.Proofs.Json.FirstToken
/-!
# Which texts are keys

A text is a key if, but for blanks around it, it is a spelling of the key (`Key.Written`): an integer of
64 bits has one, its decimal digits, and a text has as many as its characters have. These are the texts
that are read as keys (`Key.ofJson?_eq_some_iff`).
-/

namespace ReadThrough.Key

open Json

/-- The spellings of a key: the decimal digits of an integer, and a text between quotes. -/
inductive Spelled : List Char → Key → Prop where
  | int (n : Int64) : Spelled (decimal n.toInt) (.int n)
  | text {ws : List Char} {s : String} (spelled : SpellsAll ws s.toList) :
      Spelled ('"' :: ws ++ ['"']) (.text s)

/-- A spelling of a key with blanks around it. -/
def Written (cs : List Char) (k : Key) : Prop :=
  ∃ before word after, cs = before ++ (word ++ after) ∧ (∀ c ∈ before, isGap c = true) ∧
    Spelled word k ∧ ∀ c ∈ after, isGap c = true

/-- The decimal digits of an integer are digits, but for a minus. -/
theorem isDigit_of_mem_decimal {i : Int} {c : Char} (h : c ∈ decimal i) : c = '-' ∨ c.isDigit = true := by
  obtain h | h := List.mem_append.1 h
  · split at h
    · exact .inl (List.mem_singleton.1 h)
    · cases h
  · exact .inr (Nat.isDigit_of_mem_toDigits (by decide) (by decide) h)

/-- A key without quotes has no point and no power in it. -/
theorem Written.unbent {cs : List Char} {k : Key} (h : Written cs k) (hquote : '"' ∉ cs) :
    ¬ ('.' ∈ cs ∨ 'e' ∈ cs ∨ 'E' ∈ cs) := by
  obtain ⟨before, word, after, rfl, hbefore, hword, hafter⟩ := h
  cases hword with
  | int n =>
    have hplain : ∀ c ∈ before ++ (decimal n.toInt ++ after),
        isGap c = true ∨ c = '-' ∨ c.isDigit = true := by
      intro c hc
      obtain hc | hc := List.mem_append.1 hc
      · exact .inl (hbefore c hc)
      · obtain hc | hc := List.mem_append.1 hc
        · exact .inr (isDigit_of_mem_decimal hc)
        · exact .inl (hafter c hc)
    rintro (h | h | h)
    · exact absurd (hplain _ h) (by decide)
    · exact absurd (hplain _ h) (by decide)
    · exact absurd (hplain _ h) (by decide)
  | text => exact absurd (List.mem_append_right _ (List.mem_cons_self ..)) hquote

/-! ## Reading a key -/

/-- A text is read as a key if it has one token and this is a token of the key. -/
theorem ofJson?_eq_some_iff_lex {s : String} {k : Key} :
    ofJson? s = some k ↔ ∃ t, lex s = [t] ∧ ofToken? t = some k := by
  rw [ofJson?, decode]
  constructor
  · intro h
    cases hlex : lex s with
    | nil =>
      rw [hlex] at h
      cases h
    | cons t ts =>
      rw [hlex, readAll, single] at h
      cases ht : ofToken? t with
      | none =>
        rw [ht] at h
        cases h
      | some k' =>
        rw [ht] at h
        cases ts with
        | nil => exact ⟨t, rfl, ht.trans h⟩
        | cons => cases h
  · rintro ⟨t, hlex, ht⟩
    rw [hlex, readAll, single, ht]
    rfl

/-- A token of a key is a number that is an integer of 64 bits, or a text. -/
theorem ofToken?_eq_some_iff {t : Token} {k : Key} : ofToken? t = some k ↔
    (∃ n m, t = .number m ∧ m.int? = some n.toInt ∧ k = .int n) ∨
      ∃ s, t = .text s ∧ k = .text s := by
  constructor
  · intro h
    cases t with
    | number m =>
      obtain ⟨i, hi, h⟩ := Option.bind_eq_some_iff.1 h
      split at h
      · rename_i hrange
        obtain rfl := Option.some.inj h
        refine .inl ⟨.ofInt i, m, rfl, ?_, rfl⟩
        rw [hi, Int64.toInt_ofInt_of_le hrange.1 (Int.lt_of_le_of_lt hrange.2 (by decide))]
      · cases h
    | text s => exact .inr ⟨s, rfl, (Option.some.inj h).symm⟩
    | _ => cases h
  · rintro (⟨n, m, rfl, hm, rfl⟩ | ⟨s, rfl, rfl⟩)
    · rw [ofToken?, hm, Option.bind_some, if_pos ⟨Int64.minValue_le_toInt n, Int64.toInt_le n⟩,
        Int64.ofInt_toInt]
    · rfl

/-- A blank ends a number. -/
theorem ends_of_isGap {c : Char} (h : isGap c = true) : ends c = true := by
  simp only [isGap, decide_eq_true_eq] at h
  rcases h with rfl | rfl | rfl | rfl <;> rfl

/-- A spelling of a key with blanks after it is read as one token, that of the key. -/
theorem Spelled.lexFrom {word after : List Char} {k : Key} (h : Spelled word k)
    (hafter : ∀ c ∈ after, isGap c = true) : Json.lexFrom .between (word ++ after) = [k.token] := by
  cases h with
  | int n =>
    have hends : ∀ c ∈ after.head?, ends c = true := fun c hc =>
      ends_of_isGap (hafter c (List.mem_of_mem_head? hc))
    rw [lexFrom_decimal n.toInt hends, lexFrom_eq_nil_iff.2 hafter]
    rfl
  | @text ws s hws =>
    show Json.lexFrom (.text {}) ((ws ++ ['"']) ++ after) = _
    rw [List.append_assoc, hws.lexFrom, List.append_nil]
    show Quoted.token { content := s.toList.reverse } :: Json.lexFrom .between after = _
    rw [lexFrom_eq_nil_iff.2 hafter, Quoted.token]
    simp [Quoted.settle, token]

/-- The texts that are read as a key are its spellings with blanks around them. -/
theorem ofJson?_eq_some_iff {s : String} {k : Key} : ofJson? s = some k ↔ Written s.toList k := by
  rw [ofJson?_eq_some_iff_lex]
  constructor
  · rintro ⟨t, hlex, ht⟩
    obtain ⟨n, m, rfl, hm, rfl⟩ | ⟨s, rfl, rfl⟩ := ofToken?_eq_some_iff.1 ht
    · obtain ⟨gaps, rest, hs, hgaps, hrest⟩ := decimal_of_lexFrom hm hlex
      exact ⟨gaps, _, rest, hs, hgaps, .int n, lexFrom_eq_nil_iff.1 hrest⟩
    · obtain ⟨gaps, ws, rest, hs, hgaps, hws, hrest⟩ := spelled_of_lexFrom hlex
      refine ⟨gaps, '"' :: ws ++ ['"'], rest, ?_, hgaps, .text hws, lexFrom_eq_nil_iff.1 hrest⟩
      rw [hs, List.append_assoc, List.append_assoc, List.singleton_append]
  · rintro ⟨before, word, after, hs, hbefore, hword, hafter⟩
    refine ⟨k.token, ?_, ofToken?_token k⟩
    rw [lex, hs, lexFrom_gaps hbefore, hword.lexFrom hafter]

end ReadThrough.Key
