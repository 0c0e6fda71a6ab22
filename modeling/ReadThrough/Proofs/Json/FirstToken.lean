import ReadThrough.Proofs.Json.Spelling
/-!
# The first token of a text

A token that has begun comes to an end, as a token of its kind or as a fault (`lexFrom_yields`). So a
text without tokens is blank (`lexFrom_eq_nil_iff`), and a text whose first token is a quoted text or an
integer begins, after blanks, with a spelling of it (`spelled_of_lexFrom`, `decimal_of_lexFrom`). An
integer has one spelling: a point or a power makes a number that is none (`int?_of_bent`).
-/

namespace ReadThrough.Json

/-! ## Tokens come to an end -/

/-- The tokens that may come of what has begun. -/
def State.MayYield : State → Token → Prop
  | .between, _ | .stopped, _ => False
  | .word _ t, t' => t' = t ∨ t' = .invalid
  | .number _ _, t' => (∃ n, t' = .number n) ∨ t' = .invalid
  | .text _, t' | .escape _, t' | .unit _ _ _, t' =>
    (∃ s, t' = .text s) ∨ t' = .unpaired ∨ t' = .invalid

/-- Nothing has begun, or nothing more is read. -/
def State.isAtRest : State → Bool
  | .between | .stopped => true
  | _ => false

theorem Quoted.token_cases (q : Quoted) : (∃ s, q.token = .text s) ∨ q.token = .unpaired := by
  simp only [token]
  split
  · exact .inl ⟨_, rfl⟩
  · exact .inr rfl

theorem finish_yields {st : State} (h : st.isAtRest = false) : ∃ t, finish st = [t] ∧ st.MayYield t := by
  cases st with
  | between | stopped => cases h
  | word rest t =>
    cases rest with
    | nil => exact ⟨t, rfl, .inl rfl⟩
    | cons => exact ⟨.invalid, rfl, .inr rfl⟩
  | number stage n =>
    rw [finish]
    split
    · exact ⟨.number n, rfl, .inl ⟨n, rfl⟩⟩
    · exact ⟨.invalid, rfl, .inr rfl⟩
  | text | escape | unit => exact ⟨.invalid, rfl, .inr (.inr rfl)⟩

/-- A character ends what has begun, or goes on with it. -/
theorem feed_yields {st : State} (h : st.isAtRest = false) (c : Char) :
    (∃ t ts, (feed st c).1 = t :: ts ∧ st.MayYield t) ∨
      (feed st c).1 = [] ∧ (feed st c).2.isAtRest = false ∧
        ∀ t, (feed st c).2.MayYield t → st.MayYield t := by
  cases st with
  | between | stopped => cases h
  | word rest t =>
    cases rest with
    | nil => exact .inl ⟨t, _, rfl, .inl rfl⟩
    | cons e rest =>
      rw [feed]
      split
      · split
        · exact .inl ⟨t, _, rfl, .inl rfl⟩
        · exact .inr ⟨rfl, rfl, fun _ => id⟩
      · exact .inl ⟨.invalid, _, rfl, .inr rfl⟩
  | number stage n =>
    rw [feed]
    split
    · exact .inr ⟨rfl, rfl, fun _ => id⟩
    · split
      · exact .inl ⟨.number n, _, rfl, .inl ⟨n, rfl⟩⟩
      · exact .inl ⟨.invalid, _, rfl, .inr rfl⟩
  | text q =>
    rw [feed]
    split
    · exact .inl ⟨q.token, _, rfl, q.token_cases.imp_right .inl⟩
    · split
      · exact .inr ⟨rfl, rfl, fun _ => id⟩
      · split
        · exact .inl ⟨.invalid, _, rfl, .inr (.inr rfl)⟩
        · exact .inr ⟨rfl, rfl, fun _ => id⟩
  | escape q =>
    rw [feed]
    split
    · exact .inr ⟨rfl, rfl, fun _ => id⟩
    · split
      · exact .inr ⟨rfl, rfl, fun _ => id⟩
      · exact .inl ⟨.invalid, _, rfl, .inr (.inr rfl)⟩
  | unit q digits value =>
    rw [feed]
    split
    · split
      · exact .inr ⟨rfl, rfl, fun _ => id⟩
      · exact .inr ⟨rfl, rfl, fun _ => id⟩
    · exact .inl ⟨.invalid, _, rfl, .inr (.inr rfl)⟩

/-- What has begun comes to a token. -/
theorem lexFrom_yields {st : State} (h : st.isAtRest = false) (cs : List Char) :
    ∃ t ts, lexFrom st cs = t :: ts ∧ st.MayYield t := by
  induction cs generalizing st with
  | nil =>
    obtain ⟨t, ht, hyield⟩ := finish_yields h
    exact ⟨t, [], ht, hyield⟩
  | cons c cs ih =>
    obtain ⟨t, ts, hts, hyield⟩ | ⟨hnil, hrest, hmono⟩ := feed_yields h c
    · exact ⟨t, ts ++ lexFrom (feed st c).2 cs, by rw [lexFrom, hts, List.cons_append], hyield⟩
    · obtain ⟨t, ts, hts, hyield⟩ := ih hrest
      exact ⟨t, ts, by rw [lexFrom, hnil, List.nil_append, hts], hmono t hyield⟩

theorem lexFrom_ne_nil {st : State} (h : st.isAtRest = false) (cs : List Char) : lexFrom st cs ≠ [] := by
  obtain ⟨t, ts, hts, -⟩ := lexFrom_yields h cs
  rw [hts]
  exact List.cons_ne_nil t ts

theorem mayYield_of_lexFrom {st : State} {cs : List Char} {t : Token} {ts : List Token}
    (hst : st.isAtRest = false) (h : lexFrom st cs = t :: ts) : st.MayYield t := by
  obtain ⟨t', ts', hts, hyield⟩ := lexFrom_yields hst cs
  rw [h] at hts
  exact (List.cons.inj hts).1 ▸ hyield

/-! ## The character where a token begins -/

/-- A digit is the character of its value. -/
theorem eq_digitChar_of_digit? {c : Char} {d : Nat} (h : digit? c = some d) :
    c = Nat.digitChar d ∧ d < 10 := by
  unfold digit? at h
  split at h
  · rename_i hc
    obtain rfl := Option.some.inj h
    have hlow : 48 ≤ c.toNat := hc.1
    have hhigh : c.toNat ≤ 57 := hc.2
    have hlt : c.toNat - '0'.toNat < 10 := by
      show c.toNat - 48 < 10
      omega
    refine ⟨?_, hlt⟩
    apply Char.toNat_inj.1
    rw [Nat.toNat_digitChar_of_lt_ten hlt]
    show c.toNat = 48 + (c.toNat - 48)
    omega
  · cases h

/-- A text is blank, or a token begins after its blanks. -/
theorem blank_or_begins (cs : List Char) : (∀ c ∈ cs, isGap c = true) ∨
    ∃ gaps c r, cs = gaps ++ c :: r ∧ (∀ g ∈ gaps, isGap g = true) ∧ isGap c = false := by
  induction cs with
  | nil => exact .inl nofun
  | cons c cs ih =>
    cases hc : isGap c with
    | false => exact .inr ⟨[], c, cs, rfl, nofun, hc⟩
    | true =>
      obtain hall | ⟨gaps, d, r, rfl, hgaps, hd⟩ := ih
      · exact .inl (List.forall_mem_cons.2 ⟨hc, hall⟩)
      · exact .inr ⟨c :: gaps, d, r, rfl, List.forall_mem_cons.2 ⟨hc, hgaps⟩, hd⟩

/-- A quote begins a quoted text, a minus or a digit a number, and any other character comes to a token
of another kind. -/
theorem lexFrom_begins {c : Char} (hc : isGap c = false) (r : List Char) :
    (c = '"' ∧ lexFrom .between (c :: r) = lexFrom (.text {}) r) ∨
    (c = '-' ∧ lexFrom .between (c :: r) =
      lexFrom (.number .minus { negative := true, whole := 0 }) r) ∨
    (∃ d, digit? c = some d ∧ lexFrom .between (c :: r) =
      lexFrom (.number (if d = 0 then .zero else .whole) { whole := d }) r) ∨
    ∃ t ts, lexFrom .between (c :: r) = t :: ts ∧ (∀ s, t ≠ .text s) ∧ ∀ n, t ≠ .number n := by
  have word : ∀ rest t, (∀ s, t ≠ .text s) → (∀ n, t ≠ .number n) →
      ∃ t' ts, lexFrom (.word rest t) r = t' :: ts ∧ (∀ s, t' ≠ .text s) ∧ ∀ n, t' ≠ .number n := by
    intro rest t htext hnumber
    obtain ⟨t', ts, hts, rfl | rfl⟩ := @lexFrom_yields (.word rest t) rfl r
    · exact ⟨_, ts, hts, htext, hnumber⟩
    · exact ⟨_, ts, hts, nofun, nofun⟩
  have hgap : ¬ isGap c = true := by simp [hc]
  have hfeed : lexFrom .between (c :: r) = (start c).1 ++ lexFrom (start c).2 r := rfl
  rw [hfeed]
  unfold start
  rw [if_neg hgap]
  split
  case h_1 | h_2 | h_3 | h_4 | h_5 | h_6 => exact .inr (.inr (.inr ⟨_, _, rfl, nofun, nofun⟩))
  case h_7 => exact .inl ⟨rfl, rfl⟩
  case h_8 | h_9 | h_10 => exact .inr (.inr (.inr (word _ _ nofun nofun)))
  case h_11 => exact .inr (.inl ⟨rfl, rfl⟩)
  case h_12 => exact .inr (.inr (.inl ⟨0, rfl, rfl⟩))
  case h_13 hzero =>
    cases hd : digit? c with
    | none => exact .inr (.inr (.inr ⟨_, _, rfl, nofun, nofun⟩))
    | some d =>
      have hne : d ≠ 0 := by
        rintro rfl
        exact hzero (eq_digitChar_of_digit? hd).1
      refine .inr (.inr (.inl ⟨d, rfl, ?_⟩))
      rw [if_neg hne]
      rfl

/-- A text has no tokens if and only if it is blank. -/
theorem lexFrom_eq_nil_iff {cs : List Char} : lexFrom .between cs = [] ↔ ∀ c ∈ cs, isGap c = true := by
  constructor
  · intro h
    obtain hall | ⟨gaps, c, r, rfl, hgaps, hc⟩ := blank_or_begins cs
    · exact hall
    · rw [lexFrom_gaps hgaps] at h
      obtain ⟨-, hr⟩ | ⟨-, hr⟩ | ⟨d, -, hr⟩ | ⟨t, ts, hr, -⟩ := lexFrom_begins hc r <;> rw [hr] at h
      · exact absurd h (lexFrom_ne_nil rfl r)
      · exact absurd h (lexFrom_ne_nil rfl r)
      · exact absurd h (lexFrom_ne_nil rfl r)
      · cases h
  · intro h
    have hnil := lexFrom_gaps h []
    rw [List.append_nil] at hnil
    exact hnil

/-- A text whose first token is a quoted text begins with a spelling of it. -/
theorem spelled_of_lexFrom {cs : List Char} {s : String} {ts : List Token}
    (h : lexFrom .between cs = .text s :: ts) :
    ∃ gaps ws rest, cs = gaps ++ '"' :: ws ++ '"' :: rest ∧ (∀ g ∈ gaps, isGap g = true) ∧
      SpellsAll ws s.toList ∧ lexFrom .between rest = ts := by
  have number : ∀ {stage n r}, lexFrom (.number stage n) r ≠ .text s :: ts := by
    intro stage n r h
    obtain ⟨m, hm⟩ | hm := mayYield_of_lexFrom rfl h <;> cases hm
  obtain hall | ⟨gaps, c, r, rfl, hgaps, hc⟩ := blank_or_begins cs
  · rw [lexFrom_eq_nil_iff.2 hall] at h
    cases h
  · rw [lexFrom_gaps hgaps] at h
    obtain ⟨rfl, hr⟩ | ⟨-, hr⟩ | ⟨d, -, hr⟩ | ⟨t, ts', hr, htext, -⟩ := lexFrom_begins hc r <;>
      rw [hr] at h
    · obtain ⟨-, ws, rest, content, rfl, hts, hs, hgoes⟩ := completes_of_lexFrom h
      refine ⟨gaps, ws, rest, ?_, hgaps, ?_, hts⟩
      · rw [List.append_assoc, List.cons_append]
      · rw [hs]
        exact hgoes
    · exact absurd h number
    · exact absurd h number
    · exact absurd (List.cons.inj h).1 (htext s)

/-! ## Integers -/

/-- A number that has a point or a power, or is about to get one. -/
def Bent : Stage → Number → Prop
  | .minus, _ | .zero, _ | .whole, _ => False
  | .point, _ | .mark, _ | .sign _, _ => True
  | .fraction, n => n.fraction ≠ []
  | .power _, n => n.exponent ≠ none

theorem Bent.more {stage stage' : Stage} {n n' : Number} {c : Char} (h : Bent stage n)
    (hmore : more? stage n c = some (stage', n')) : Bent stage' n' := by
  unfold more? at hmore
  split at hmore
  case h_1 | h_2 | h_8 | h_9 => cases h
  case h_3 | h_4 =>
    cases hmore
    exact List.append_ne_nil_of_right_ne_nil _ (List.cons_ne_nil _ _)
  case h_5 | h_6 | h_7 =>
    cases hmore
    exact Option.some_ne_none _
  case h_10 =>
    split at hmore
    · cases hmore
      trivial
    · cases hmore
  case h_11 =>
    split at hmore
    · cases hmore
      trivial
    · split at hmore
      · cases hmore
        trivial
      · cases hmore
  case h_12 => cases hmore

/-- A number with a point or a power is not an integer. -/
theorem int?_of_bent {stage : Stage} {n m : Number} {cs : List Char} {ts : List Token}
    (hbent : Bent stage n) (h : lexFrom (.number stage n) cs = .number m :: ts) : m.int? = none := by
  have hend : ∀ {stage n}, Bent stage n → stage.complete = true → n.int? = none := by
    intro stage n hbent hcomplete
    rw [Number.int?]
    apply if_neg
    rintro ⟨hf, he⟩
    cases stage <;> cases hcomplete
    · exact hbent
    · exact hbent
    · exact hbent hf
    · exact hbent he
  induction cs generalizing stage n with
  | nil =>
    replace h : (if stage.complete then [Token.number n] else [.invalid]) = .number m :: ts := h
    split at h
    · cases h
      exact hend hbent ‹_›
    · cases h
  | cons c cs ih =>
    rw [lexFrom, feed] at h
    cases hmore : more? stage n c with
    | some next =>
      rw [hmore] at h
      exact ih (hbent.more hmore) h
    | none =>
      rw [hmore] at h
      simp only at h
      split at h
      · cases (List.cons.inj h).1
        exact hend hbent ‹_›
      · cases h

/-- An integer goes on with a digit, or with what makes it a number that is none. -/
theorem more?_cases {stage stage' : Stage} {n n' : Number} {c : Char}
    (hstage : stage = .zero ∨ stage = .whole) (h : more? stage n c = some (stage', n')) :
    Bent stage' n' ∨ stage = .whole ∧ stage' = .whole ∧
      ∃ d, digit? c = some d ∧ n' = { n with whole := n.whole * 10 + d } := by
  have mark : (if c = '.' then some (Stage.point, n)
      else if c = 'e' ∨ c = 'E' then some (.mark, n) else none) = some (stage', n') →
      Bent stage' n' := by
    intro h
    split at h
    · cases h
      trivial
    · split at h
      · cases h
        trivial
      · cases h
  cases hd : digit? c with
  | none => obtain rfl | rfl := hstage <;> simp only [more?, hd] at h <;> exact .inl (mark h)
  | some d =>
    obtain rfl | rfl := hstage <;> simp only [more?, hd] at h <;> cases h
    exact .inr ⟨rfl, rfl, d, rfl, rfl⟩

/-- After its first digit an integer goes on with the rest of its digits and ends. -/
theorem digits_of_lexFrom {stage : Stage} {n m : Number} {cs : List Char} {ts : List Token}
    (hstage : stage = .zero ∨ stage = .whole ∧ 0 < n.whole) (hm : m.int? ≠ none)
    (h : lexFrom (.number stage n) cs = .number m :: ts) :
    ∃ r, Nat.toDigits 10 n.whole ++ cs = Nat.toDigits 10 m.whole ++ r ∧
      m = { n with whole := m.whole } ∧ lexFrom .between r = ts := by
  induction cs generalizing stage n with
  | nil =>
    replace h : (if stage.complete then [Token.number n] else [.invalid]) = .number m :: ts := h
    split at h
    · cases h
      exact ⟨[], rfl, rfl, rfl⟩
    · cases h
  | cons c cs ih =>
    rw [lexFrom, feed] at h
    cases hmore : more? stage n c with
    | none =>
      rw [hmore] at h
      simp only at h
      split at h
      · cases h
        exact ⟨c :: cs, rfl, rfl, rfl⟩
      · cases h
    | some next =>
      rw [hmore] at h
      obtain hbent | ⟨rfl, hwhole, d, hd, hn⟩ := more?_cases (hstage.imp_right And.left) hmore
      · exact absurd (int?_of_bent hbent h) hm
      · obtain ⟨stage', n'⟩ := next
        subst hwhole hn
        obtain ⟨-, hpos⟩ := hstage.resolve_left (by decide)
        obtain ⟨rfl, hlt⟩ := eq_digitChar_of_digit? hd
        have hdigits : Nat.toDigits 10 (n.whole * 10 + d) = Nat.toDigits 10 n.whole ++ [d.digitChar] := by
          rw [Nat.mul_comm, ← Nat.toDigits_append_toDigits (by decide) hpos hlt,
            Nat.toDigits_of_lt_base hlt]
        obtain ⟨r, hr, hmeq, hts⟩ := ih (.inr ⟨rfl, by simp only; omega⟩) h
        refine ⟨r, ?_, hmeq, hts⟩
        rw [← hr, hdigits, List.append_assoc, List.singleton_append]

/-- An integer is written as a minus, if it is negative, and the digits of its number. -/
theorem decimal_of_int? {n : Number} {i : Int} (h : n.int? = some i) :
    decimal i = (if n.negative then ['-'] else []) ++ Nat.toDigits 10 n.whole := by
  rw [Number.int?] at h
  split at h
  · split at h
    · split at h
      · cases h
      · rename_i hneg hne
        cases h
        have hlt : -(n.whole : Int) < 0 := by omega
        rw [decimal, if_pos hlt, if_pos hneg, Int.natAbs_neg, Int.natAbs_natCast]
    · rename_i hneg
      cases h
      have hge : ¬ (n.whole : Int) < 0 := by omega
      rw [decimal, if_neg hge, if_neg hneg, Int.natAbs_natCast]
  · cases h

/-- A digit follows the minus of a number. -/
theorem digit_of_minus {n : Number} {cs : List Char} {ts : List Token}
    (h : lexFrom (.number .minus { negative := true, whole := 0 }) cs = .number n :: ts) :
    ∃ d c r, cs = c :: r ∧ digit? c = some d ∧
      lexFrom (.number (if d = 0 then .zero else .whole) { negative := true, whole := d }) r =
        .number n :: ts := by
  cases cs with
  | nil => cases h
  | cons c r =>
    rw [lexFrom, feed] at h
    cases hd : digit? c with
    | none =>
      simp only [more?, hd] at h
      cases h
    | some d =>
      simp only [more?, hd] at h
      exact ⟨d, c, r, rfl, hd, h⟩

/-- What begins with a digit, and before it perhaps a minus, and is read as an integer begins with its
decimal digits. -/
theorem decimal_of_digit {negative : Bool} {c : Char} {d : Nat} {n : Number} {i : Int} {r : List Char}
    {ts : List Token} (hd : digit? c = some d) (hi : n.int? = some i)
    (h : lexFrom (.number (if d = 0 then .zero else .whole) { negative, whole := d }) r =
      .number n :: ts) :
    ∃ rest, (if negative then ['-'] else []) ++ c :: r = decimal i ++ rest ∧
      lexFrom .between rest = ts := by
  have hn : n.int? ≠ none := by simp [hi]
  obtain ⟨rfl, hlt⟩ := eq_digitChar_of_digit? hd
  have hstage : (if d = 0 then Stage.zero else .whole) = .zero ∨
      (if d = 0 then Stage.zero else .whole) = .whole ∧ 0 < d := by
    split
    · exact .inl rfl
    · exact .inr ⟨rfl, by omega⟩
  obtain ⟨rest, hrest, hneg, hts⟩ := digits_of_lexFrom hstage hn h
  replace hneg : n.negative = negative := congrArg Number.negative hneg
  refine ⟨rest, ?_, hts⟩
  rw [decimal_of_int? hi, hneg, List.append_assoc, ← hrest, Nat.toDigits_of_lt_base hlt,
    List.singleton_append]

/-- A text whose first token is an integer begins, after blanks, with its decimal digits. -/
theorem decimal_of_lexFrom {cs : List Char} {n : Number} {i : Int} {ts : List Token}
    (hi : n.int? = some i) (h : lexFrom .between cs = .number n :: ts) :
    ∃ gaps rest, cs = gaps ++ (decimal i ++ rest) ∧ (∀ g ∈ gaps, isGap g = true) ∧
      lexFrom .between rest = ts := by
  obtain hall | ⟨gaps, c, r, rfl, hgaps, hc⟩ := blank_or_begins cs
  · rw [lexFrom_eq_nil_iff.2 hall] at h
    cases h
  · rw [lexFrom_gaps hgaps] at h
    obtain ⟨-, hr⟩ | ⟨rfl, hr⟩ | ⟨d, hd, hr⟩ | ⟨t, ts', hr, -, hnumber⟩ := lexFrom_begins hc r <;>
      rw [hr] at h
    · obtain ⟨s, hs⟩ | hs | hs := mayYield_of_lexFrom rfl h <;> cases hs
    · obtain ⟨d, c, r, rfl, hd, hr⟩ := digit_of_minus h
      obtain ⟨rest, hrest, hts⟩ := decimal_of_digit hd hi hr
      exact ⟨gaps, rest, congrArg (gaps ++ ·) hrest, hgaps, hts⟩
    · obtain ⟨rest, hrest, hts⟩ := decimal_of_digit hd hi h
      exact ⟨gaps, rest, congrArg (gaps ++ ·) hrest, hgaps, hts⟩
    · exact absurd (List.cons.inj h).1 (hnumber n)

end ReadThrough.Json
