import ReadThrough.Proofs.Json.Streaming
/-!
# The values of a list

A record that is a list is read value by value, each by the field whose place it has, and reading goes on after them
(`Places.positions_append`). So reading that is refused has taken whole values before the value that is refused
(`exists_of_positions_refused`), and reading that succeeds has taken whole values up to the end
(`exists_of_positions_ok`).
-/

namespace ReadThrough.Json

variable {ε σ : Type}

/-- Whole values of the first fields, a comma after each; the fields that come after them are left. -/
inductive Places : List (Field ε σ) → σ → List Token → List (Field ε σ) → σ → Prop where
  | nil (fields : List (Field ε σ)) (acc : σ) : Places fields acc [] fields acc
  | cons {field : Field ε σ} {fields left : List (Field ε σ)} {acc acc' acc'' : σ}
      {value front : List Token} (read : field.read acc value = .ok (acc', []))
      (rest : Places fields acc' front left acc'') :
      Places (field :: fields) acc (value ++ .comma :: front) left acc''

section positions

variable {field : Field ε σ} {fields left : List (Field ε σ)} {acc acc' : σ} {front value ts rest : List Token}
  {reason : ε}

/-- The value of a field is taken whole, and begins with no bracket that closes. -/
theorem Field.Lawful.read_append (hfield : field.Lawful) (h : field.read acc value = .ok (acc', [])) :
    ∀ rest, (value ++ rest).head? ≠ some .closeArray ∧
      field.read acc (value ++ rest) = .ok (acc', rest) := by
  obtain ⟨t, value', rfl, hread⟩ := hfield.streams acc value acc' [] h
  intro rest
  refine ⟨?_, by simpa using hread rest⟩
  intro heq
  rw [Option.some.inj heq, hfield.opens] at h
  cases h

/-- Fields are left after fewer of them. -/
theorem Places.suffix (h : Places fields acc front left acc') : left <:+ fields := by
  induction h with
  | nil => exact List.suffix_refl _
  | cons _ _ ih => exact ih.trans (List.suffix_cons ..)

theorem Places.head?_append (hfields : ∀ field ∈ fields, field.Lawful) (h : Places fields acc front left acc')
    (hts : ts.head? ≠ some .closeArray) : (front ++ ts).head? ≠ some .closeArray := by
  cases h with
  | nil => exact hts
  | cons read _ =>
    rw [List.append_assoc]
    exact ((hfields _ List.mem_cons_self).read_append read _).1

/-- In a list that does not close at once the value of the next field is read first. -/
theorem positions_true (hts : ts.head? ≠ some .closeArray) : positions (field :: fields) true acc ts =
    (field.read acc ts).bind fun (acc, rest) => positions fields false acc rest := by
  rw [positions]
  · rfl
  · rintro rest rfl
    exact hts rfl

theorem positions_comma : positions (field :: fields) false acc (.comma :: ts) =
    (field.read acc ts).bind fun (acc, rest) => positions fields false acc rest := by
  rw [positions]
  rfl

/-- After a comma a list goes on as if it began there. -/
theorem positions_comma_eq (hts : ts.head? ≠ some .closeArray) :
    positions (field :: fields) false acc (.comma :: ts) = positions (field :: fields) true acc ts := by
  rw [positions_comma, positions_true hts]

theorem positions_close (b : Bool) (h : fields.any (·.required) = false) :
    positions fields b acc (.closeArray :: rest) = .ok (acc, rest) := by
  cases fields with
  | nil => cases b <;> rfl
  | cons field fields =>
    rw [positions]
    · rw [h]
      rfl
    · nofun

/-- After the value of a field a list closes, or the value of the next field comes after a comma. -/
theorem positions_cases (hfields : ∀ field ∈ fields, field.Lawful)
    (h : positions fields false acc ts ≠ .error .form) :
    (∃ rest, ts = .closeArray :: rest ∧ fields.any (·.required) = false ∧
        positions fields false acc ts = .ok (acc, rest)) ∨
      ∃ field left rest, fields = field :: left ∧ ts = .comma :: rest ∧ rest.head? ≠ some .closeArray ∧
        positions fields false acc ts = positions fields true acc rest := by
  cases ts with
  | nil => cases fields <;> exact absurd rfl h
  | cons t ts =>
    by_cases hclose : t = .closeArray
    · subst hclose
      cases hany : fields.any (·.required) with
      | false => exact .inl ⟨ts, rfl, rfl, positions_close false hany⟩
      | true =>
        cases fields with
        | nil => cases hany
        | cons field fields =>
          refine absurd ?_ h
          rw [positions]
          · rw [hany]
            rfl
          · nofun
    · cases fields with
      | nil => cases t <;> first | exact absurd rfl hclose | exact absurd rfl h
      | cons field fields =>
        by_cases hcomma : t = .comma
        · subst hcomma
          refine .inr ⟨field, fields, ts, rfl, rfl, ?_⟩
          have hhead : ts.head? ≠ some .closeArray := by
            intro heq
            obtain ⟨rest, rfl⟩ := List.head?_eq_some_iff.1 heq
            rw [positions_comma, (hfields _ List.mem_cons_self).opens] at h
            exact h rfl
          exact ⟨hhead, positions_comma_eq hhead⟩
        · cases t <;> first | exact absurd rfl hclose | exact absurd rfl hcomma | exact absurd rfl h

/-- Reading goes on after the values of the first fields. -/
theorem Places.positions_append (hfields : ∀ field ∈ fields, field.Lawful)
    (h : Places fields acc front (field :: left) acc') (hts : ts.head? ≠ some .closeArray) :
    positions fields true acc (front ++ ts) = positions (field :: left) true acc' ts := by
  -- The fields that are left are those at the end of the induction, so they are named for it.
  generalize hl : field :: left = l at h
  induction h with
  | nil => rw [← hl, List.nil_append]
  | @cons first fields l acc acc₁ acc' value front read rest ih =>
    obtain ⟨hfirst, hfields⟩ := List.forall_mem_cons.1 hfields
    obtain ⟨hhead, hread⟩ := hfirst.read_append read (.comma :: (front ++ ts))
    obtain ⟨next, later, rfl⟩ : ∃ next later, fields = next :: later := by
      refine List.exists_cons_of_ne_nil fun hnil => ?_
      have hle := rest.suffix.length_le
      rw [hnil, ← hl] at hle
      cases hle
    rw [List.append_assoc, List.cons_append, positions_true hhead, hread]
    exact (positions_comma_eq (rest.head?_append hfields hts)).trans (ih hfields hl)

/-- A list that does not close at once and finds no fault with the form of the tokens refuses the value of
its first field, or goes on after it. -/
theorem positions_true_cases (hfield : field.Lawful) (h : positions (field :: fields) true acc ts ≠ .error .form)
    (hts : ts.head? ≠ some .closeArray) :
    (∃ reason, field.read acc ts = .error (.refused reason) ∧
        positions (field :: fields) true acc ts = .error (.refused reason)) ∨
      ∃ value rest acc', ts = value ++ rest ∧ field.read acc value = .ok (acc', []) ∧
        positions (field :: fields) true acc ts = positions fields false acc' rest := by
  rw [positions_true hts] at h ⊢
  cases hread : field.read acc ts with
  | error fault =>
    cases fault with
    | form =>
      rw [hread] at h
      exact absurd rfl h
    | refused reason => exact .inl ⟨reason, rfl, rfl⟩
  | ok p =>
    obtain ⟨acc', rest⟩ := p
    obtain ⟨t, value, rfl, hvalue⟩ := hfield.streams acc ts acc' rest hread
    refine .inr ⟨t :: value, rest, acc', rfl, ?_, rfl⟩
    rw [← List.append_nil value]
    exact hvalue []

/-- A list that is refused has whole values before. -/
theorem exists_of_positions_refused (hfields : ∀ field ∈ fields, field.Lawful)
    (h : positions fields true acc ts = .error (.refused reason)) :
    ∃ front field left acc' rest, ts = front ++ rest ∧ Places fields acc front (field :: left) acc' ∧
      field.read acc' rest = .error (.refused reason) := by
  induction fields generalizing acc ts with
  | nil =>
    unfold positions at h
    split at h <;> simp_all
  | cons field fields ih =>
    have hform : positions (field :: fields) true acc ts ≠ .error .form := by
      rw [h]
      nofun
    have hhead : ts.head? ≠ some .closeArray := by
      intro heq
      obtain ⟨rest, rfl⟩ := List.head?_eq_some_iff.1 heq
      rw [positions] at h
      · split at h <;> cases h
      · nofun
    obtain ⟨hfield, hfields⟩ := List.forall_mem_cons.1 hfields
    obtain ⟨reason', hread, heq⟩ | ⟨value, rest, acc₁, rfl, hread, heq⟩ :=
      positions_true_cases hfield hform hhead
    · rw [heq] at h
      cases h
      exact ⟨[], field, fields, acc, ts, rfl, .nil _ _, hread⟩
    · rw [heq] at h
      obtain ⟨rest', rfl, -, heq⟩ | ⟨next, later, rest', rfl, rfl, -, heq⟩ :=
        positions_cases hfields (by rw [h]; nofun)
      · rw [heq] at h
        cases h
      · rw [heq] at h
        obtain ⟨front, field', left, acc', rest, rfl, hfront, hrefused⟩ := ih hfields h
        exact ⟨_, field', left, acc', rest, by simp, .cons hread hfront, hrefused⟩

/-- A list that is read closes at once; or it closes after the value of its first field, or is read on. -/
theorem positions_ok_cases (hfields : ∀ f ∈ field :: fields, f.Lawful)
    (h : positions (field :: fields) true acc ts = .ok (acc', rest)) :
    ts = .closeArray :: rest ∧ acc' = acc ∧ (field :: fields).any (·.required) = false ∨
      ∃ value rest₁ acc₁, ts = value ++ rest₁ ∧ field.read acc value = .ok (acc₁, []) ∧
        (rest₁ = .closeArray :: rest ∧ acc' = acc₁ ∧ fields.any (·.required) = false ∨
          ∃ rest₂, rest₁ = .comma :: rest₂ ∧ rest₂.head? ≠ some .closeArray ∧
            positions fields true acc₁ rest₂ = .ok (acc', rest)) := by
  obtain ⟨hfield, hlater⟩ := List.forall_mem_cons.1 hfields
  by_cases hhead : ts.head? = some .closeArray
  · obtain ⟨rest', rfl⟩ := List.head?_eq_some_iff.1 hhead
    rw [positions] at h
    · split at h
      · cases h
      · rename_i hany
        cases h
        exact .inl ⟨rfl, rfl, by simpa using hany⟩
    · nofun
  · right
    obtain ⟨reason', -, heq⟩ | ⟨value, rest₁, acc₁, rfl, hread, heq⟩ :=
      positions_true_cases hfield (by rw [h]; nofun) hhead
    · rw [heq] at h
      cases h
    · refine ⟨value, rest₁, acc₁, rfl, hread, ?_⟩
      rw [heq] at h
      obtain ⟨rest', rfl, hany, heq⟩ | ⟨next, later, rest₂, rfl, rfl, hhead', heq⟩ :=
        positions_cases hlater (by rw [h]; nofun)
      · rw [heq] at h
        cases h
        exact .inl ⟨rfl, rfl, hany⟩
      · exact .inr ⟨rest₂, rfl, hhead', heq ▸ h⟩

/-- A record that is read from a list closes at once, or after a value that comes after whole values. -/
theorem exists_of_positions_ok (hfields : ∀ field ∈ fields, field.Lawful)
    (h : positions fields true acc ts = .ok (acc', rest)) :
    ts = .closeArray :: rest ∧ acc' = acc ∧ fields.any (·.required) = false ∨
      ∃ front field left acc₁ value, ts = front ++ (value ++ .closeArray :: rest) ∧
        Places fields acc front (field :: left) acc₁ ∧ field.read acc₁ value = .ok (acc', []) ∧
        left.any (·.required) = false := by
  induction fields generalizing acc ts with
  | nil =>
    unfold positions at h
    split at h <;> simp_all
  | cons field fields ih =>
    obtain hclose | ⟨value, rest₁, acc₁, rfl, hread, ⟨rfl, rfl, hany⟩ | ⟨rest₂, rfl, hhead, h⟩⟩ :=
      positions_ok_cases hfields h
    · exact .inl hclose
    · exact .inr ⟨[], field, fields, acc, value, rfl, .nil _ _, hread, hany⟩
    · right
      obtain ⟨rfl, -⟩ | ⟨front, field', left, acc₂, value', rfl, hfront, hlast⟩ :=
        ih (List.forall_mem_cons.1 hfields).2 h
      · exact absurd rfl hhead
      · exact ⟨_, field', left, acc₂, value', by simp, .cons hread hfront, hlast⟩

end positions

end ReadThrough.Json
