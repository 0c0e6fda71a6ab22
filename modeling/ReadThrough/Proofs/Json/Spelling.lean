import ReadThrough.Proofs.Json.RoundTrip
/-!
# How quoted texts are spelled

A character inside a quoted text stands for itself, is named by a letter after a backslash, or is given
by the hexadecimal numbers of its UTF-16 units (`Spells`). The lexer reads a character from any of its
spellings (`SpellsAll.lexFrom`), and a text that it reads is made of spellings (`completes_of_lexFrom`),
a high surrogate standing directly before its partner.
-/

namespace ReadThrough.Json

/-! ## Spellings -/

/-- The number that four hexadecimal digits stand for. -/
def unit? : List Char → Option Nat
  | [a, b, c, d] => do
    let a ← Hex.value? a; let b ← Hex.value? b; let c ← Hex.value? c; let d ← Hex.value? d
    return ((a * 16 + b) * 16 + c) * 16 + d
  | _ => none

/-- The character of two surrogates. -/
def ofSurrogates (high low : Nat) : Char :=
  Char.ofNat (0x10000 + (high - 0xD800) * 0x400 + (low - 0xDC00))

/-- How a character may be spelled inside a quoted text: as itself, by a letter after a backslash, or by
the numbers of its one or two UTF-16 units. -/
inductive Spells : List Char → Char → Prop where
  | itself {c : Char} (low : ¬ c < ' ') (quote : c ≠ '"') (slash : c ≠ '\\') : Spells [c] c
  | letter {e c : Char} (letter : escaped? e = some c) : Spells ['\\', e] c
  | unit {ds : List Char} {n : Nat} (digits : unit? ds = some n) (whole : n < 0xD800 ∨ 0xDFFF < n) :
      Spells ('\\' :: 'u' :: ds) (Char.ofNat n)
  | pair {hs ls : List Char} {high low : Nat} (first : unit? hs = some high)
      (second : unit? ls = some low) (high_mem : 0xD800 ≤ high ∧ high ≤ 0xDBFF)
      (low_mem : 0xDC00 ≤ low ∧ low ≤ 0xDFFF) :
      Spells ('\\' :: 'u' :: hs ++ '\\' :: 'u' :: ls) (ofSurrogates high low)

/-- Characters that are spelled one after another. -/
inductive SpellsAll : List Char → List Char → Prop where
  | nil : SpellsAll [] []
  | cons {w ws cs : List Char} {c : Char} (first : Spells w c) (rest : SpellsAll ws cs) :
      SpellsAll (w ++ ws) (c :: cs)

/-! ## Blanks -/

theorem start_of_isGap {c : Char} (h : isGap c = true) : start c = ([], .between) := by
  unfold start
  rw [if_pos h]

theorem lexFrom_gap {c : Char} (h : isGap c = true) (r : List Char) :
    lexFrom .between (c :: r) = lexFrom .between r := by
  rw [lexFrom, feed, start_of_isGap h]
  rfl

theorem lexFrom_gaps {gaps : List Char} (h : ∀ c ∈ gaps, isGap c = true) (r : List Char) :
    lexFrom .between (gaps ++ r) = lexFrom .between r := by
  induction gaps with
  | nil => rfl
  | cons c gaps ih =>
    rw [List.cons_append, lexFrom_gap (h c List.mem_cons_self),
      ih fun c hc => h c (List.mem_cons_of_mem _ hc)]

/-! ## Quoted texts -/

section addUnit

variable (q : Quoted) {n : Nat}

/-- A high surrogate waits for its partner. -/
theorem Quoted.addUnit_high (h : 0xD800 ≤ n ∧ n ≤ 0xDBFF) :
    q.addUnit n = { q.settle with waiting := some n } := by
  have hlow : ¬ (0xDC00 ≤ n ∧ n ≤ 0xDFFF) := by omega
  rw [addUnit, if_neg hlow, if_pos h]

/-- A low surrogate makes a character with the one that waits, and has no partner if none does. -/
theorem Quoted.addUnit_low (h : 0xDC00 ≤ n ∧ n ≤ 0xDFFF) :
    q.addUnit n = match q.waiting with
      | some high => { q with content := ofSurrogates high n :: q.content, waiting := none }
      | none => { q with paired := false } := by
  rw [addUnit, if_pos h]
  cases q.waiting <;> rfl

end addUnit

theorem lexFrom_units (q : Quoted) {ds : List Char} {n : Nat} (h : unit? ds = some n) (r : List Char) :
    lexFrom (.text q) ('\\' :: 'u' :: ds ++ r) = lexFrom (.text (q.addUnit n)) r := by
  unfold unit? at h
  split at h
  · rename_i a b c d
    simp only [Option.bind_eq_bind, Option.bind_eq_some_iff, Option.pure_def, Option.some.injEq] at h
    obtain ⟨na, ha, nb, hb, nc, hc, nd, hd, rfl⟩ := h
    show lexFrom (.unit q 0 0) (a :: b :: c :: d :: r) = _
    rw [lexFrom_digit q 0 0 ha, if_neg (by decide), lexFrom_digit q _ _ hb, if_neg (by decide),
      lexFrom_digit q _ _ hc, if_neg (by decide), lexFrom_digit q _ _ hd, if_pos rfl, Nat.zero_mul,
      Nat.zero_add]
  · cases h

/-- A character is read from any of its spellings. -/
theorem Spells.lexFrom {w : List Char} {c : Char} (h : Spells w c) (q : Quoted) (r : List Char) :
    Json.lexFrom (.text q) (w ++ r) = Json.lexFrom (.text (q.add c)) r := by
  cases h with
  | itself low quote slash =>
    show (feed (.text q) c).1 ++ Json.lexFrom (feed (.text q) c).2 r = _
    rw [feed, if_neg quote, if_neg slash, if_neg low]
    rfl
  | @letter e c h =>
    have hu : e ≠ 'u' := by
      rintro rfl
      cases h
    show (feed (.escape q) e).1 ++ Json.lexFrom (feed (.escape q) e).2 r = _
    rw [feed, if_neg hu, h]
    rfl
  | @unit ds n digits whole =>
    rw [lexFrom_units q digits, q.addUnit_whole whole]
  | @pair hs ls high low first second high_mem low_mem =>
    rw [List.append_assoc, lexFrom_units q first, lexFrom_units _ second, q.addUnit_high high_mem,
      Quoted.addUnit_low _ low_mem]
    rfl

theorem SpellsAll.lexFrom {ws cs : List Char} (h : SpellsAll ws cs) (content r : List Char) :
    Json.lexFrom (.text { content }) (ws ++ r) =
      Json.lexFrom (.text { content := cs.reverse ++ content }) r := by
  induction h generalizing content with
  | nil => rfl
  | @cons w ws cs c first rest ih =>
    rw [List.append_assoc, first.lexFrom]
    show Json.lexFrom (.text { content := c :: content }) _ = _
    rw [ih, List.reverse_cons, List.append_assoc, List.singleton_append]

/-! ## What quoted texts are made of -/

/-- How the characters of a quoted text go on: if a high surrogate waits, then with its partner. -/
def GoesOn : Option Nat → List Char → List Char → Prop
  | none, ws, cs => SpellsAll ws cs
  | some high, ws, cs => ∃ ls low rest cs', unit? ls = some low ∧ (0xDC00 ≤ low ∧ low ≤ 0xDFFF) ∧
      ws = '\\' :: 'u' :: ls ++ rest ∧
      cs = ofSurrogates high low :: cs' ∧ SpellsAll rest cs'

/-- What follows goes on with the quoted text read so far, ends it, and has some tokens after it. -/
def Quoted.Completes (q : Quoted) (cs : List Char) (s : String) (ts : List Token) : Prop :=
  q.paired = true ∧ ∃ ws rest content, cs = ws ++ '"' :: rest ∧ lexFrom .between rest = ts ∧
    s.toList = q.content.reverse ++ content ∧ GoesOn q.waiting ws content

/-- After a next character surrogates are still in pairs if none was waiting for its partner. -/
theorem Quoted.paired_settle {q : Quoted} : q.settle.paired = true ↔ q.paired = true ∧ q.waiting = none := by
  rw [settle, Bool.and_eq_true, Option.isNone_iff_eq_none]

theorem Quoted.Completes.of_add {q : Quoted} {w r : List Char} {c : Char} {s : String} {ts : List Token}
    (hw : Spells w c) (h : (q.add c).Completes r s ts) : q.Completes (w ++ r) s ts := by
  obtain ⟨hpaired, ws, rest, content, rfl, hts, hs, hgoes⟩ := h
  obtain ⟨hpaired, hwaiting⟩ := paired_settle.1 hpaired
  refine ⟨hpaired, w ++ ws, rest, c :: content, (List.append_assoc _ _ _).symm, hts, ?_, ?_⟩
  · rw [hs]
    show (c :: q.content).reverse ++ content = _
    rw [List.reverse_cons, List.append_assoc, List.singleton_append]
  · rw [hwaiting]
    exact .cons hw hgoes

theorem Quoted.Completes.of_addUnit {q : Quoted} {ds r : List Char} {n : Nat} {s : String}
    {ts : List Token} (hds : unit? ds = some n) (h : (q.addUnit n).Completes r s ts) :
    q.Completes ('\\' :: 'u' :: ds ++ r) s ts := by
  by_cases hlow : 0xDC00 ≤ n ∧ n ≤ 0xDFFF
  · -- A low surrogate is the partner of one that waits.
    rw [q.addUnit_low hlow] at h
    cases hwaiting : q.waiting with
    | none =>
      rw [hwaiting] at h
      cases h.1
    | some high =>
      rw [hwaiting] at h
      obtain ⟨hpaired, ws, rest, content, rfl, hts, hs, hgoes⟩ := h
      refine ⟨hpaired, '\\' :: 'u' :: ds ++ ws, rest, ofSurrogates high n :: content,
        (List.append_assoc _ _ _).symm, hts, ?_, ?_⟩
      · rw [hs, List.reverse_cons, List.append_assoc, List.singleton_append]
      · rw [hwaiting]
        exact ⟨ds, n, ws, content, hds, hlow, rfl, rfl, hgoes⟩
  · by_cases hhigh : 0xD800 ≤ n ∧ n ≤ 0xDBFF
    · rw [q.addUnit_high hhigh] at h
      obtain ⟨hpaired, ws, rest, content, rfl, hts, hs, ls, low, rest', content', hls, hlow, rfl, rfl,
        hall⟩ := h
      obtain ⟨hpaired, hwaiting⟩ := paired_settle.1 hpaired
      refine ⟨hpaired, '\\' :: 'u' :: ds ++ ('\\' :: 'u' :: ls ++ rest'), rest, _,
        (List.append_assoc _ _ _).symm, hts, hs, ?_⟩
      rw [hwaiting, ← List.append_assoc]
      exact .cons (.pair hds hls hhigh hlow) hall
    · have hwhole : n < 0xD800 ∨ 0xDFFF < n := by omega
      rw [q.addUnit_whole hwhole] at h
      exact h.of_add (.unit hds hwhole)

/-- The text goes on with four hexadecimal digits. -/
theorem units_of_lexFrom {q : Quoted} {cs : List Char} {s : String} {ts : List Token}
    (h : lexFrom (.unit q 0 0) cs = .text s :: ts) :
    ∃ ds n r, cs = ds ++ r ∧ r.length < cs.length ∧ unit? ds = some n ∧
      lexFrom (.text (q.addUnit n)) r = .text s :: ts := by
  have digit : ∀ {digits value : Nat} {cs : List Char},
      lexFrom (.unit q digits value) cs = .text s :: ts →
      ∃ c d r, cs = c :: r ∧ Hex.value? c = some d := by
    intro digits value cs h
    cases cs with
    | nil => cases h
    | cons c r =>
      cases hc : Hex.value? c with
      | some d => exact ⟨c, d, r, rfl, hc⟩
      | none =>
        rw [lexFrom, feed, hc] at h
        cases h
  obtain ⟨a, na, r, rfl, ha⟩ := digit h
  rw [lexFrom_digit q 0 0 ha, if_neg (by decide)] at h
  obtain ⟨b, nb, r, rfl, hb⟩ := digit h
  rw [lexFrom_digit q _ _ hb, if_neg (by decide)] at h
  obtain ⟨c, nc, r, rfl, hc⟩ := digit h
  rw [lexFrom_digit q _ _ hc, if_neg (by decide)] at h
  obtain ⟨d, nd, r, rfl, hd⟩ := digit h
  rw [lexFrom_digit q _ _ hd, if_pos rfl, Nat.zero_mul, Nat.zero_add] at h
  refine ⟨[a, b, c, d], _, r, rfl, ?_, ?_, h⟩
  · simp only [List.length_cons]
    omega
  · simp only [unit?, ha, hb, hc, hd]
    rfl

/-- The text goes on with a letter that stands for a character, or with the digits of a number. -/
theorem escape_cases {q : Quoted} {cs : List Char} {s : String} {ts : List Token}
    (h : lexFrom (.escape q) cs = .text s :: ts) :
    (∃ ds n r, cs = 'u' :: ds ++ r ∧ r.length < cs.length ∧ unit? ds = some n ∧
      lexFrom (.text (q.addUnit n)) r = .text s :: ts) ∨
    ∃ e c r, cs = e :: r ∧ escaped? e = some c ∧ lexFrom (.text (q.add c)) r = .text s :: ts := by
  cases cs with
  | nil => cases h
  | cons e cs =>
    rw [lexFrom, feed] at h
    by_cases hu : e = 'u'
    · subst hu
      rw [if_pos rfl] at h
      obtain ⟨ds, n, r, rfl, hlt, hds, hr⟩ := units_of_lexFrom h
      exact .inl ⟨ds, n, r, rfl, Nat.lt_succ_of_lt hlt, hds, hr⟩
    · rw [if_neg hu] at h
      cases he : escaped? e with
      | none =>
        rw [he] at h
        cases h
      | some c =>
        rw [he] at h
        exact .inr ⟨e, c, cs, rfl, he, h⟩

/-- A quote ends the text. -/
theorem completes_of_quote {q : Quoted} {cs : List Char} {s : String} {ts : List Token}
    (h : lexFrom (.text q) ('"' :: cs) = .text s :: ts) : q.Completes ('"' :: cs) s ts := by
  rw [lexFrom, feed, if_pos rfl] at h
  obtain ⟨htoken, hts⟩ := List.cons.inj h
  simp only [Quoted.token] at htoken
  split at htoken
  · rename_i hpaired
    obtain ⟨hpaired, hwaiting⟩ := Quoted.paired_settle.1 hpaired
    obtain rfl := Token.text.inj htoken
    refine ⟨hpaired, [], cs, [], rfl, hts, ?_, ?_⟩
    · rw [String.toList_ofList, List.append_nil]
      rfl
    · rw [hwaiting]
      exact .nil
  · cases htoken

/-- A quoted text that is read is spelled character by character and ends with a quote. -/
theorem completes_of_lexFrom {q : Quoted} {cs : List Char} {s : String} {ts : List Token}
    (h : lexFrom (.text q) cs = .text s :: ts) : q.Completes cs s ts := by
  -- The induction is on what is left of the text; a character may take several steps.
  induction hn : cs.length using Nat.strongRecOn generalizing q cs with
  | ind n ih =>
    subst hn
    cases cs with
    | nil => cases h
    | cons c cs =>
      by_cases hquote : c = '"'
      · subst hquote
        exact completes_of_quote h
      · rw [lexFrom, feed, if_neg hquote] at h
        by_cases hslash : c = '\\'
        · subst hslash
          rw [if_pos rfl] at h
          obtain ⟨ds, n, r, rfl, hlt, hds, hr⟩ | ⟨e, c, r, rfl, he, hr⟩ := escape_cases h
          · have hcompletes := ih r.length (Nat.lt_succ_of_lt hlt) hr rfl
            exact hcompletes.of_addUnit hds
          · have hcompletes := ih r.length (by simp only [List.length_cons]; omega) hr rfl
            exact hcompletes.of_add (.letter he)
        · rw [if_neg hslash] at h
          by_cases hlow : c < ' '
          · rw [if_pos hlow] at h
            cases h
          · rw [if_neg hlow] at h
            have hcompletes := ih cs.length (Nat.lt_succ_self _) h rfl
            exact hcompletes.of_add (.itself hlow hquote hslash)

end ReadThrough.Json
