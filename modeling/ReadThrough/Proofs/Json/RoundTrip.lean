import ReadThrough.Json.Reader
import ReadThrough.Json.Writer
/-!
# Tokens that are written are read back

A token list that a writer makes (`Plain`) is what the lexer finds in its text (`lex_write`). A quoted
text ends with its quote and a bracket with itself, so it does not matter what follows them; a number
goes on as long as it can, and is read back where it is followed by something that ends it.
-/

namespace ReadThrough.Json

/-! ## Quoted texts -/

/-- A number beside the surrogates stands for a character. -/
theorem Quoted.addUnit_whole (q : Quoted) {n : Nat} (h : n < 0xD800 ∨ 0xDFFF < n) :
    q.addUnit n = q.add (Char.ofNat n) := by
  have hlow : ¬ (0xDC00 ≤ n ∧ n ≤ 0xDFFF) := by omega
  have hhigh : ¬ (0xD800 ≤ n ∧ n ≤ 0xDBFF) := by omega
  rw [addUnit, if_neg hlow, if_neg hhigh]

theorem lexFrom_digit (q : Quoted) (digits value : Nat) {c : Char} {d : Nat}
    (h : Hex.value? c = some d) (r : List Char) :
    lexFrom (.unit q digits value) (c :: r) =
      lexFrom (if digits = 3 then .text (q.addUnit (value * 16 + d))
        else .unit q (digits + 1) (value * 16 + d)) r := by
  rw [lexFrom, feed, h]
  simp only
  split <;> rfl

/-- Four digits are read as the character of their number. -/
theorem lexFrom_unit (q : Quoted) {n : Nat} (h : n < 32) (r : List Char) :
    lexFrom (.escape q) ('u' :: '0' :: '0' :: Hex.digit (n / 16) :: Hex.digit (n % 16) :: r) =
      lexFrom (.text (q.add (Char.ofNat n))) r := by
  have hzero : Hex.value? '0' = some 0 := by decide
  have hhigh : Hex.value? (Hex.digit (n / 16)) = some (n / 16) :=
    Hex.value?_digit ⟨n / 16, by omega⟩
  have hlow : Hex.value? (Hex.digit (n % 16)) = some (n % 16) :=
    Hex.value?_digit ⟨n % 16, by omega⟩
  have hsum : ((0 * 16 + 0) * 16 + n / 16) * 16 + n % 16 = n := by omega
  show lexFrom (.unit q 0 0) _ = _
  rw [lexFrom_digit q 0 0 hzero, if_neg (by decide), lexFrom_digit q _ _ hzero, if_neg (by decide),
    lexFrom_digit q _ _ hhigh, if_neg (by decide), lexFrom_digit q _ _ hlow, if_pos rfl]
  rw [Nat.zero_mul, Nat.zero_add] at hsum ⊢
  rw [hsum, q.addUnit_whole (.inl (by omega))]

/-- A character that is written inside a quoted text is read as itself. -/
theorem lexFrom_escape (q : Quoted) (c : Char) (r : List Char) :
    lexFrom (.text q) (escape c ++ r) = lexFrom (.text (q.add c)) r := by
  unfold escape
  split
  -- The characters that have no escape of their own.
  case h_8 hquote hback _ _ _ _ _ =>
    split
    · rename_i hlow
      have hn : c.toNat < 32 := hlow
      show lexFrom (.escape q)
        ('u' :: '0' :: '0' :: Hex.digit (c.toNat / 16) :: Hex.digit (c.toNat % 16) :: r) = _
      rw [lexFrom_unit q hn, Char.ofNat_toNat]
    · rename_i hlow
      show (feed (.text q) c).1 ++ lexFrom (feed (.text q) c).2 r = _
      rw [feed, if_neg (by exact hquote), if_neg (by exact hback), if_neg hlow]
      rfl
  all_goals rfl

/-- Characters that are written inside a quoted text are read one after another. -/
theorem lexFrom_escapes (cs : List Char) (content r : List Char) :
    lexFrom (.text { content }) (cs.flatMap escape ++ r) =
      lexFrom (.text { content := cs.reverse ++ content }) r := by
  induction cs generalizing content with
  | nil => rfl
  | cons c cs ih =>
    rw [List.flatMap_cons, List.append_assoc, lexFrom_escape]
    show lexFrom (.text { content := c :: content }) _ = _
    rw [ih, List.reverse_cons, List.append_assoc, List.singleton_append]

/-- A text that is written is read back, whatever follows it. -/
theorem lexFrom_quote (s : String) (r : List Char) :
    lexFrom .between (quote s ++ r) = .text s :: lexFrom .between r := by
  show lexFrom (.text {}) ((s.toList.flatMap escape ++ ['"']) ++ r) = _
  rw [List.append_assoc, lexFrom_escapes, List.append_nil]
  show Quoted.token { content := s.toList.reverse } :: lexFrom .between r = _
  rw [Quoted.token]
  simp [Quoted.settle]

/-! ## Numbers -/

theorem digit?_digitChar (d : Fin 10) : digit? (Nat.digitChar d) = some d := by
  revert d
  decide

/-- The state in which the first digit of a number is read. -/
def ahead (negative : Bool) : State :=
  if negative then .number .minus { negative, whole := 0 } else .between

theorem feed_ahead (negative : Bool) (d : Fin 10) (hd : d ≠ 0) :
    feed (ahead negative) (Nat.digitChar d) = ([], .number .whole { negative, whole := d }) := by
  revert negative d
  decide

/-- The digits of a number are read one after another. -/
theorem lexFrom_digits (negative : Bool) {n : Nat} (hn : 0 < n) (r : List Char) :
    lexFrom (ahead negative) (Nat.toDigits 10 n ++ r) =
      lexFrom (.number .whole { negative, whole := n }) r := by
  induction n using Nat.strongRecOn generalizing r with
  | ind n ih =>
    by_cases hlt : n < 10
    · rw [Nat.toDigits_of_lt_base hlt]
      have hfeed := feed_ahead negative ⟨n, hlt⟩ (Fin.ne_of_val_ne (Nat.pos_iff_ne_zero.1 hn))
      show (feed (ahead negative) n.digitChar).1 ++ lexFrom (feed (ahead negative) n.digitChar).2 r = _
      rw [show feed (ahead negative) n.digitChar = _ from hfeed]
      rfl
    · -- The last digit comes after the digits of a smaller number.
      have hdigit : digit? (Nat.digitChar (n % 10)) = some (n % 10) :=
        digit?_digitChar ⟨n % 10, by omega⟩
      have hsum : n / 10 * 10 + n % 10 = n := by omega
      rw [Nat.toDigits_of_base_le (by decide) (by omega), List.append_assoc,
        ih (n / 10) (by omega) (by omega)]
      simp only [List.singleton_append, lexFrom, feed, more?, hdigit, hsum, List.nil_append]

/-- Whether a character ends a number: an integer does not go on with it. -/
def ends (c : Char) : Bool := (digit? c).isNone && c ≠ '.' && c ≠ 'e' && c ≠ 'E'

theorem more?_of_ends {c : Char} (h : ends c = true) {stage : Stage}
    (hs : stage = .zero ∨ stage = .whole) (n : Number) : more? stage n c = none := by
  simp only [ends, Bool.and_eq_true, Option.isNone_iff_eq_none, decide_eq_true_eq, ne_eq] at h
  obtain ⟨⟨⟨hdigit, hpoint⟩, hsmall⟩, hlarge⟩ := h
  rcases hs with rfl | rfl <;> simp [more?, hdigit, hpoint, hsmall, hlarge]

/-- A whole number ends where the text ends, or where something stands that ends it. -/
theorem lexFrom_number {stage : Stage} (hs : stage = .zero ∨ stage = .whole) (n : Number)
    {r : List Char} (hr : ∀ c ∈ r.head?, ends c = true) :
    lexFrom (.number stage n) r = .number n :: lexFrom .between r := by
  have hcomplete : stage.complete = true := by
    rcases hs with rfl | rfl <;> rfl
  cases r with
  | nil =>
    show (if stage.complete then [Token.number n] else [.invalid]) = _
    rw [if_pos hcomplete]
    rfl
  | cons c r =>
    have hmore := more?_of_ends (hr c rfl) hs n
    simp only [lexFrom, feed, hmore, hcomplete, if_true, List.cons_append]

/-- The decimal digits of an integer, with a minus before them if it is negative. -/
def decimal (i : Int) : List Char := (if i < 0 then ['-'] else []) ++ Nat.toDigits 10 i.natAbs

theorem Number.write_ofInt (i : Int) : (Number.ofInt i).write = decimal i := by
  simp [write, ofInt, decimal]

/-- An integer that is written is read back where something follows that ends it. -/
theorem lexFrom_decimal (i : Int) {r : List Char} (hr : ∀ c ∈ r.head?, ends c = true) :
    lexFrom .between (decimal i ++ r) = .number (.ofInt i) :: lexFrom .between r := by
  rw [decimal]
  -- Zero is a stage of its own, since no digit may follow it.
  rcases Int.lt_trichotomy i 0 with hneg | rfl | hpos
  · rw [if_pos hneg]
    show lexFrom (ahead true) (Nat.toDigits 10 i.natAbs ++ r) = _
    rw [lexFrom_digits true (by omega), lexFrom_number (.inr rfl) _ hr, Number.ofInt,
      decide_eq_true hneg]
  · show lexFrom (.number .zero { whole := 0 }) r = _
    rw [lexFrom_number (.inl rfl) _ hr]
    rfl
  · have hnot : ¬ i < 0 := by omega
    rw [if_neg hnot]
    show lexFrom (ahead false) (Nat.toDigits 10 i.natAbs ++ r) = _
    rw [lexFrom_digits false (by omega), lexFrom_number (.inr rfl) _ hr, Number.ofInt,
      decide_eq_false hnot]

/-! ## Token lists -/

/-- Whether a token ends a number before it. -/
def Token.ends : Token → Bool
  | .comma | .closeObject | .closeArray => true
  | _ => false

/-- A token list that a writer makes: all numbers are integers, and each of them is followed by
something that ends it, or by nothing. -/
def Plain : List Token → Prop
  | [] => True
  | .number n :: ts => (∃ i, n = .ofInt i) ∧ (∀ t ∈ ts.head?, t.ends = true) ∧ Plain ts
  | .unpaired :: _ | .invalid :: _ => False
  | _ :: ts => Plain ts

theorem ends_of_head? {ts : List Token} (h : ∀ t ∈ ts.head?, t.ends = true) :
    ∀ c ∈ (ts.flatMap Token.write).head?, ends c = true := by
  cases ts with
  | nil => exact nofun
  | cons t ts =>
    have ht := h t rfl
    cases t <;> cases ht <;> rintro c ⟨⟩ <;> rfl

/-- What is written is read back. -/
theorem lexFrom_write {ts : List Token} (h : Plain ts) :
    lexFrom .between (ts.flatMap Token.write) = ts := by
  induction ts with
  | nil => rfl
  | cons t ts ih =>
    rw [List.flatMap_cons]
    cases t with
    | number n =>
      obtain ⟨⟨i, rfl⟩, hends, hplain⟩ := h
      rw [Token.write, Number.write_ofInt, lexFrom_decimal i (ends_of_head? hends), ih hplain]
    | text s => rw [Token.write, lexFrom_quote, ih h]
    | unpaired | invalid => cases h
    | bool b =>
      cases b with
      | true => exact congrArg (.bool true :: ·) (ih h)
      | false => exact congrArg (.bool false :: ·) (ih h)
    | null => exact congrArg (.null :: ·) (ih h)
    | openObject => exact congrArg (.openObject :: ·) (ih h)
    | closeObject => exact congrArg (.closeObject :: ·) (ih h)
    | openArray => exact congrArg (.openArray :: ·) (ih h)
    | closeArray => exact congrArg (.closeArray :: ·) (ih h)
    | colon => exact congrArg (.colon :: ·) (ih h)
    | comma => exact congrArg (.comma :: ·) (ih h)

theorem lex_write {ts : List Token} (h : Plain ts) : lex (write ts) = ts := by
  rw [lex, write, String.toList_ofList, lexFrom_write h]

end ReadThrough.Json
