import Mathlib.Data.List.Basic
import ReadThrough.Sql.Statement
/-!
# The text of a statement

Whoever reads the text of a statement finds its placeholders again, if no other part of the text looks like
one: they are numbered from one on, one for each value (`placeholders_text`). The text depends on where the
values stand and not on what they are (`text_eq_of_outline`), and it is made of the same parts as the pieces
of the statement (`MadeOf.text`).
-/

namespace ReadThrough.Sql

/-! ## Placeholders -/

/-- The numbers after the dollar signs in a list of characters, as they are written. -/
def markers : List Char → List String
  | [] => []
  | c :: cs => if c = '$' then String.ofList (cs.takeWhile Char.isDigit) :: markers cs else markers cs

/-- The numbers of the placeholders in a text, in the order in which they stand there. -/
def placeholders (text : String) : List String := markers text.toList

theorem markers_append {cs : List Char} (h : '$' ∉ cs) (rest : List Char) :
    markers (cs ++ rest) = markers rest := by
  induction cs with
  | nil => rfl
  | cons c cs ih =>
    obtain ⟨hc, hcs⟩ := not_or.1 (List.mem_cons.not.1 h)
    rw [List.cons_append, markers, if_neg (Ne.symm hc), ih hcs]

/-- The digits of a number end where no digit follows. -/
theorem takeWhile_toString (n : Nat) {rest : List Char} (h : ∀ c ∈ rest.head?, c.isDigit = false) :
    ((toString n).toList ++ rest).takeWhile Char.isDigit = (toString n).toList := by
  have hdigits : ∀ c ∈ (toString n).toList, c.isDigit = true := fun c hc =>
    Nat.isDigit_of_mem_toDigits (by decide) (by decide) (Nat.toList_repr ▸ hc)
  rw [List.takeWhile_append_of_pos hdigits]
  cases rest with
  | nil => simp
  | cons c rest => simp [h c rfl]

theorem dollar_notMem_toString (n : Nat) : '$' ∉ (toString n).toList := by
  intro h
  have hdigit := Nat.isDigit_of_mem_toDigits (b := 10) (by decide) (by decide) (Nat.toList_repr ▸ h)
  exact absurd hdigit (by decide)

namespace Statement

/-- No part of the text of a statement looks like a placeholder, or like more digits of one. -/
def Unmarked (s : Statement) : Prop :=
  ∀ t, Piece.text t ∈ s → '$' ∉ t.toList ∧ ∀ c ∈ t.toList.head?, c.isDigit = false

variable {s : Statement}

theorem Unmarked.tail {p : Piece} (h : Unmarked (p :: s)) : Unmarked s :=
  fun t ht => h t (List.mem_cons_of_mem _ ht)

theorem Unmarked.head?_textFrom (h : s.Unmarked) (n : Nat) :
    ∀ c ∈ (s.textFrom n).toList.head?, c.isDigit = false := by
  induction s with
  | nil => nofun
  | cons p s ih =>
    intro c hc
    cases p with
    | bind b =>
      obtain rfl : '$' = c := by simpa [textFrom] using hc
      decide
    | text t =>
      rw [textFrom, String.toList_append, List.head?_append] at hc
      cases ht : t.toList.head? with
      | none => exact ih h.tail c (by simpa [ht] using hc)
      | some d =>
        obtain rfl : d = c := by simpa [ht] using hc
        exact (h t List.mem_cons_self).2 d ht

theorem Unmarked.markers_textFrom (h : s.Unmarked) (n : Nat) :
    markers (s.textFrom n).toList = (List.range' n s.binds.length).map toString := by
  induction s generalizing n with
  | nil => rfl
  | cons p s ih =>
    cases p with
    | text t =>
      rw [textFrom, String.toList_append, markers_append (h t List.mem_cons_self).1, ih h.tail, binds]
    | bind b =>
      have hnumber := takeWhile_toString n (h.tail.head?_textFrom (n + 1))
      have htext : (textFrom n (.bind b :: s)).toList =
          '$' :: ((toString n).toList ++ (textFrom (n + 1) s).toList) := by
        simp [textFrom]
      rw [htext, markers, if_pos rfl, hnumber, markers_append (dollar_notMem_toString n), ih h.tail,
        binds, List.length_cons, List.range'_succ, List.map_cons, String.ofList_toList]

/-- The placeholders in the text of a statement are numbered from one on, one for each value. -/
theorem Unmarked.placeholders_text (h : s.Unmarked) :
    placeholders s.text = (List.range' 1 s.binds.length).map toString :=
  h.markers_textFrom 1

theorem textFrom_append (n : Nat) (s t : Statement) :
    textFrom n (s ++ t) = textFrom n s ++ textFrom (n + s.binds.length) t := by
  induction s generalizing n with
  | nil => simp [textFrom, binds]
  | cons p s ih =>
    cases p with
    | text u => simp only [List.cons_append, textFrom, binds, ih, String.append_assoc]
    | bind b =>
      simp only [List.cons_append, textFrom, binds, ih, String.append_assoc, List.length_cons]
      rw [Nat.add_right_comm, Nat.add_assoc]

/-- A piece of text stands in the text of the statement. -/
theorem exists_text_eq {t : String} (h : .text t ∈ s) : ∃ before after, s.text = before ++ t ++ after := by
  obtain ⟨l, r, rfl⟩ := List.append_of_mem h
  refine ⟨textFrom 1 l, textFrom (1 + (binds l).length) r, ?_⟩
  rw [text, textFrom_append, textFrom, String.append_assoc]

/-! ## Values leave no trace -/

/-- A piece without what is sent apart from the text. -/
def Piece.outline : Piece → Option String
  | .text t => some t
  | .bind _ => none

/-- The text of a statement with its values taken out. -/
def outline (s : Statement) : List (Option String) := s.map Piece.outline

@[simp] theorem outline_append (s t : Statement) : outline (s ++ t) = outline s ++ outline t :=
  List.map_append

theorem textFrom_eq_of_outline {s s' : Statement} (h : s.outline = s'.outline) (n : Nat) :
    s.textFrom n = s'.textFrom n := by
  induction s generalizing s' n with
  | nil =>
    cases s' with
    | nil => rfl
    | cons p' s' => cases h
  | cons p s ih =>
    cases s' with
    | nil => cases h
    | cons p' s' =>
      obtain ⟨hp, hs⟩ := List.cons.inj h
      cases p <;> cases p' <;> cases hp
      · rw [textFrom, textFrom, ih hs]
      · rw [textFrom, textFrom, ih hs]

/-- Statements that differ in values only have the same text. -/
theorem text_eq_of_outline {s s' : Statement} (h : s.outline = s'.outline) : s.text = s'.text :=
  textFrom_eq_of_outline h 1

end Statement

/-! ## Parts of a text -/

/-- A text is made of parts of one sort. -/
def MadeOf (part : String → Prop) (s : String) : Prop :=
  ∃ parts : List String, s = String.join parts ∧ ∀ p ∈ parts, part p

namespace MadeOf

variable {part : String → Prop} {s t : String}

theorem nil : MadeOf part "" := ⟨[], rfl, nofun⟩

theorem one (h : part s) : MadeOf part s := ⟨[s], by simp, by simpa using h⟩

theorem append (hs : MadeOf part s) (ht : MadeOf part t) : MadeOf part (s ++ t) := by
  obtain ⟨parts, rfl, hparts⟩ := hs
  obtain ⟨parts', rfl, hparts'⟩ := ht
  refine ⟨parts ++ parts', String.join_append.symm, ?_⟩
  intro p hp
  exact (List.mem_append.1 hp).elim (hparts p) (hparts' p)

theorem intercalate {l : List String} (ht : MadeOf part t) (h : ∀ s ∈ l, MadeOf part s) :
    MadeOf part (t.intercalate l) := by
  induction l with
  | nil => exact nil
  | cons s l ih =>
    have hs := h s List.mem_cons_self
    have hl := ih fun u hu => h u (List.mem_cons_of_mem _ hu)
    cases l with
    | nil => rwa [String.intercalate_singleton]
    | cons u l =>
      rw [String.intercalate_cons_cons]
      exact (hs.append ht).append hl

/-- The text of a statement is made of what its pieces are made of, and of placeholders. -/
theorem textFrom {s : Statement} (htext : ∀ t, Piece.text t ∈ s → MadeOf part t)
    (hmark : ∀ n : Nat, part ("$" ++ toString n)) (n : Nat) : MadeOf part (s.textFrom n) := by
  induction s generalizing n with
  | nil => exact nil
  | cons p s ih =>
    have hrest := ih fun t ht => htext t (List.mem_cons_of_mem _ ht)
    cases p with
    | text t => exact (htext t List.mem_cons_self).append (hrest n)
    | bind b => exact (one (hmark n)).append (hrest (n + 1))

end MadeOf

end ReadThrough.Sql
