import ReadThrough.Proofs.Json.Leading
import ReadThrough.Proofs.Json.Marks
/-!
# Texts before and after the value of a field

What leads up to the value of a field ends in a mark, and so does a record. So a text that has a record as the value
of a field is a beginning that leads up to the field, a text of that record, and whatever follows
(`exists_of_leadsTo`); and such texts make such a text when they are put together (`lex_around`).
-/

namespace ReadThrough.Json

variable {ε α σ τ : Type}

/-! ## Whole texts -/

theorem decode_eq_ok_iff {read : Reader ε α} {s : String} {a : α} :
    decode read s = .ok a ↔ read (lex s) = .ok (a, []) := by
  rw [decode, readAll]
  cases read (lex s) with
  | error fault => exact ⟨nofun, nofun⟩
  | ok p =>
    obtain ⟨a', rest⟩ := p
    cases rest with
    | nil =>
      constructor
      · rintro h
        cases h
        rfl
      · rintro h
        cases h
        rfl
    | cons => exact ⟨nofun, nofun⟩

theorem decode_eq_refused_iff {read : Reader ε α} {s : String} {reason : ε} :
    decode read s = .error (.refused reason) ↔ read (lex s) = .error (.refused reason) := by
  rw [decode, readAll]
  cases read (lex s) with
  | error fault =>
    constructor
    · rintro h
      cases h
      rfl
    · rintro h
      cases h
      rfl
  | ok p =>
    obtain ⟨a', rest⟩ := p
    cases rest <;> exact ⟨nofun, nofun⟩

/-! ## Records -/

variable {fields left : List (Field ε σ)} {field : Field ε σ} {blank acc acc' : σ} {inner : List (Field ε τ)}
  {empty a : τ} {front ts rest : List Token} {before value : String}

theorem endsInMark_concat {front : List Token} {mark : Token} (h : mark.isMark = true) :
    EndsInMark (front ++ [mark]) :=
  ⟨front, mark, rfl, h⟩

theorem EndsInMark.append (h : EndsInMark ts) (front : List Token) : EndsInMark (front ++ ts) := by
  obtain ⟨front', mark, rfl, hmark⟩ := h
  exact ⟨front ++ front', mark, (List.append_assoc ..).symm, hmark⟩

theorem Places.endsInMark (h : Places fields acc front left acc') : front = [] ∨ EndsInMark front := by
  induction h with
  | nil => exact .inl rfl
  | cons _ _ ih =>
    right
    obtain rfl | hfront := ih
    · exact endsInMark_concat rfl
    · exact (hfront.append [.comma]).append _

/-- What leads up to the value of a field ends in a mark. -/
theorem LeadsTo.endsInMark (h : LeadsTo fields blank front field acc) : EndsInMark front := by
  cases h with
  | @member front _ _ name _ _ _ _ =>
    exact ⟨.openObject :: (front ++ [.text name]), .colon, by simp, rfl⟩
  | place places =>
    obtain rfl | hfront := places.endsInMark
    · exact ⟨[], .openArray, rfl, rfl⟩
    · exact hfront.append [.openArray]

/-- A record ends in a mark, and is read whatever follows it. -/
theorem record_value (hfields : ∀ field ∈ fields, field.Lawful) (h : record fields blank ts = .ok (acc, rest)) :
    ∃ value, ts = value ++ rest ∧ EndsInMark value ∧
      ∀ rest', record fields blank (value ++ rest') = .ok (acc, rest') := by
  obtain ⟨t, front, close, hclose, rfl, hread⟩ := record_closes hfields h
  refine ⟨t :: (front ++ [close]), by simp, ?_, fun rest' => by simpa using hread rest'⟩
  exact ⟨t :: front, close, rfl, by rcases hclose with rfl | rfl <;> rfl⟩

/-! ## Texts -/

/-- A record that is the value of a field has a text of its own. -/
theorem exists_of_leadsTo {s : String} (hinner : ∀ field ∈ inner, field.Lawful) (hs : lex s = front ++ ts)
    (hleads : LeadsTo fields blank front field acc) (hread : record inner empty ts = .ok (a, rest)) :
    ∃ before value after, s = before ++ value ++ after ∧ lex before = front ∧
      decode (record inner empty) value = .ok a := by
  obtain ⟨tokens, rfl, hmark, hrecord⟩ := record_value hinner hread
  obtain ⟨before, later, rfl, hbefore, hlater⟩ := exists_of_lex_eq_append hs hleads.endsInMark
  obtain ⟨value, after, rfl, hvalue, -⟩ := exists_of_lex_eq_append hlater hmark
  refine ⟨before, value, after, (String.append_assoc ..).symm, hbefore, decode_eq_ok_iff.2 ?_⟩
  rw [hvalue, ← List.append_nil tokens]
  exact hrecord []

/-- Texts that are read on their own are read where they are put together. -/
theorem lex_around (hinner : ∀ field ∈ inner, field.Lawful) (hbefore : EndsInMark (lex before))
    (hvalue : decode (record inner empty) value = .ok a) (after : String) :
    lex (before ++ value ++ after) = lex before ++ (lex value ++ lex after) ∧
      ∀ rest, record inner empty (lex value ++ rest) = .ok (a, rest) := by
  obtain ⟨tokens, htokens, hmark, hrecord⟩ := record_value hinner (decode_eq_ok_iff.1 hvalue)
  rw [List.append_nil] at htokens
  rw [String.append_assoc, lex_append hbefore, lex_append (htokens ▸ hmark)]
  exact ⟨rfl, htokens ▸ hrecord⟩

end ReadThrough.Json
