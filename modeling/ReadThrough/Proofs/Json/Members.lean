import ReadThrough.Proofs.Json.Streaming
/-!
# The members of an object

An object is read member by member. A member is taken whole (`takeMember_eq_ok_iff`), and reading goes on after
it (`Members.members_append`). So reading that is refused has taken whole members before the value that is refused
(`exists_of_members_refused`), and reading that succeeds has taken whole members up to the end
(`exists_of_members_ok`).
-/

namespace ReadThrough.Json

variable {ε α σ : Type}

theorem name_of_find? {fields : List (Field ε σ)} {field : Field ε σ} {name : String}
    (h : fields.find? (·.name = name) = some field) : field.name = name := by
  simpa using List.find?_some h

/-! ## One member -/

/-- The names seen and the record when a member has been taken, and what follows its value. -/
def takeMember (fields : List (Field ε σ)) (seen : List String) (acc : σ) (name : String)
    (ts : List Token) : Except (Fault ε) ((List String × σ) × List Token) :=
  match fields.find? (·.name = name) with
  | some field =>
    if name ∈ seen then .error .form
    else (field.read acc ts).map fun (acc, rest) => ((name :: seen, acc), rest)
  | none => (skip ts).map fun rest => ((seen, acc), rest)

/-- A whole member: the value of a field that has not been seen is read, and a value under an unknown name
is skipped. -/
inductive Member (fields : List (Field ε σ)) :
    List String → σ → String → List Token → List String → σ → Prop where
  | known {seen : List String} {acc acc' : σ} {name : String} {field : Field ε σ} {value : List Token}
      (find : fields.find? (·.name = name) = some field) (new : name ∉ seen)
      (read : field.read acc value = .ok (acc', [])) : Member fields seen acc name value (name :: seen) acc'
  | unknown {seen : List String} {acc : σ} {name : String} {value : List Token}
      (find : fields.find? (·.name = name) = none) (read : skip value = (.ok [] : Except (Fault ε) _)) :
      Member fields seen acc name value seen acc

section members

variable {fields : List (Field ε σ)} {seen seen' seen'' : List String} {acc acc' acc'' : σ} {name : String}
  {value ts rest : List Token} {rounds : Nat}

/-- A member is taken when the field of its name reads its value for the first time. -/
theorem takeMember_of_read {field : Field ε σ} (hfind : fields.find? (·.name = name) = some field)
    (hnew : name ∉ seen) (hread : field.read acc ts = .ok (acc', rest)) :
    takeMember fields seen acc name ts = .ok ((name :: seen, acc'), rest) := by
  rw [takeMember, hfind]
  simp only [if_neg hnew, hread]
  rfl

/-- After a member comes another one, or the record ends. -/
theorem members_succ : members fields (rounds + 1) seen acc (.text name :: .colon :: ts) =
    (takeMember fields seen acc name ts).bind fun ((seen, acc), rest) =>
      match rest with
      | .comma :: rest => members fields rounds seen acc rest
      | .closeObject :: rest =>
        if fields.all fun f => !f.required || seen.contains f.name then .ok (acc, rest)
        else .error .form
      | _ => .error .form := by
  rw [members, takeMember]
  cases fields.find? (·.name = name) with
  | none => cases (skip ts : Except (Fault ε) _) <;> rfl
  | some field =>
    by_cases hnew : name ∈ seen
    · simp only [if_pos hnew]
      rfl
    · simp only [if_neg hnew]
      cases field.read acc ts <;> rfl

/-- A member is read, and others follow it. -/
theorem members_comma {field : Field ε σ} (hfind : fields.find? (·.name = name) = some field)
    (hnew : name ∉ seen) (hread : field.read acc ts = .ok (acc', .comma :: rest)) :
    members fields (rounds + 1) seen acc (.text name :: .colon :: ts) =
      members fields rounds (name :: seen) acc' rest := by
  rw [members_succ, takeMember_of_read hfind hnew hread]
  rfl

/-- The last member is read, and all that must be there has been read. -/
theorem members_close {field : Field ε σ} (hfind : fields.find? (·.name = name) = some field)
    (hnew : name ∉ seen) (hread : field.read acc ts = .ok (acc', .closeObject :: rest))
    (hall : (fields.all fun f => !f.required || (name :: seen).contains f.name) = true) :
    members fields (rounds + 1) seen acc (.text name :: .colon :: ts) = .ok (acc', rest) := by
  rw [members_succ, takeMember_of_read hfind hnew hread]
  exact if_pos hall

/-- Reading takes a whole member, and it takes all of it. -/
theorem takeMember_eq_ok_iff (hfields : ∀ field ∈ fields, field.Lawful) :
    takeMember fields seen acc name ts = .ok ((seen', acc'), rest) ↔
      ∃ value, ts = value ++ rest ∧ Member fields seen acc name value seen' acc' := by
  constructor
  · intro h
    rw [takeMember] at h
    split at h
    · rename_i field hfind
      split at h
      · cases h
      · rename_i hnew
        obtain ⟨a, ha, heq⟩ := map_eq_ok_iff.1 h
        obtain ⟨rfl, rfl⟩ := Prod.mk.inj heq
        obtain ⟨t, value, rfl, hread⟩ := (hfields field (List.mem_of_find?_eq_some hfind)).streams acc ts _ _ ha
        refine ⟨t :: value, rfl, .known hfind hnew ?_⟩
        rw [← List.append_nil value]
        exact hread []
    · rename_i hfind
      cases hskip : (skip ts : Except (Fault ε) _) with
      | error fault =>
        rw [hskip] at h
        cases h
      | ok rest' =>
        rw [hskip] at h
        cases h
        obtain ⟨value, rfl, hread⟩ := skip_append hskip
        refine ⟨value, rfl, .unknown hfind ?_⟩
        rw [← List.append_nil value]
        exact hread []
  · rintro ⟨value, rfl, h⟩
    cases h with
    | known find new read =>
      obtain ⟨t, value, rfl, hread⟩ := (hfields _ (List.mem_of_find?_eq_some find)).streams acc _ _ _ read
      rw [List.append_nil]
      exact takeMember_of_read find new (hread rest)
    | unknown find read =>
      obtain ⟨value, rfl, hread⟩ := skip_append read
      rw [List.append_nil, takeMember, find]
      simp only [hread rest]
      rfl

/-- Reading that finds no fault with the form of the tokens refuses the value of the next member, goes on
after it, or ends with it. -/
theorem members_cases (hfields : ∀ field ∈ fields, field.Lawful)
    (h : members fields (rounds + 1) seen acc ts ≠ .error .form) :
    ∃ name ts', ts = .text name :: .colon :: ts' ∧
      ((∃ reason, takeMember fields seen acc name ts' = .error (.refused reason) ∧
          members fields (rounds + 1) seen acc ts = .error (.refused reason)) ∨
        ∃ value seen' acc' rest, Member fields seen acc name value seen' acc' ∧
          (ts' = value ++ .comma :: rest ∧
              members fields (rounds + 1) seen acc ts = members fields rounds seen' acc' rest ∨
            ts' = value ++ .closeObject :: rest ∧
              (fields.all fun f => !f.required || seen'.contains f.name) = true ∧
              members fields (rounds + 1) seen acc ts = .ok (acc', rest))) := by
  have hname : ∃ name ts', ts = .text name :: .colon :: ts' := by
    unfold members at h
    split at h
    · contradiction
    · exact ⟨_, _, rfl⟩
    · exact absurd rfl h
  obtain ⟨name, ts', rfl⟩ := hname
  refine ⟨name, ts', rfl, ?_⟩
  rw [members_succ] at h ⊢
  cases htake : takeMember fields seen acc name ts' with
  | error fault =>
    cases fault with
    | form =>
      rw [htake] at h
      exact absurd rfl h
    | refused reason => exact .inl ⟨reason, rfl, rfl⟩
  | ok p =>
    obtain ⟨⟨seen', acc'⟩, rest⟩ := p
    obtain ⟨value, rfl, hmember⟩ := (takeMember_eq_ok_iff hfields).1 htake
    rw [htake] at h
    cases rest with
    | nil => exact absurd rfl h
    | cons t rest =>
      cases t with
      | comma => exact .inr ⟨value, seen', acc', rest, hmember, .inl ⟨rfl, rfl⟩⟩
      | closeObject =>
        by_cases hall : (fields.all fun f => !f.required || seen'.contains f.name) = true
        · exact .inr ⟨value, seen', acc', rest, hmember, .inr ⟨rfl, hall, if_pos hall⟩⟩
        · exact absurd (if_neg hall) h
      | _ => exact absurd rfl h

/-- Reading that succeeds takes a whole member, and goes on after it or ends with it. -/
theorem members_ok_cases (hfields : ∀ field ∈ fields, field.Lawful)
    (h : members fields (rounds + 1) seen acc ts = .ok (acc'', rest)) :
    ∃ name value seen' acc' later, ts = .text name :: .colon :: (value ++ later) ∧
      Member fields seen acc name value seen' acc' ∧
      ((∃ next, later = .comma :: next ∧ members fields rounds seen' acc' next = .ok (acc'', rest)) ∨
        later = .closeObject :: rest ∧ acc'' = acc' ∧
          (fields.all fun f => !f.required || seen'.contains f.name) = true) := by
  obtain ⟨name, ts', rfl, ⟨reason, -, heq⟩ | ⟨value, seen', acc', next, hmember, hnext⟩⟩ :=
    members_cases hfields (by rw [h]; nofun)
  · rw [heq] at h
    cases h
  · obtain ⟨rfl, heq⟩ | ⟨rfl, hall, heq⟩ := hnext <;> rw [heq] at h
    · exact ⟨name, value, seen', acc', _, rfl, hmember, .inl ⟨next, rfl, h⟩⟩
    · obtain ⟨rfl, rfl⟩ := Prod.mk.inj (Except.ok.inj h)
      exact ⟨name, value, seen', _, _, rfl, hmember, .inr ⟨rfl, rfl, hall⟩⟩

/-- Taking a member refuses what the field of its name refuses. -/
theorem takeMember_refused_iff {reason : ε} :
    takeMember fields seen acc name ts = .error (.refused reason) ↔
      ∃ field, fields.find? (·.name = name) = some field ∧ name ∉ seen ∧
        field.read acc ts = .error (.refused reason) := by
  rw [takeMember]
  cases hfind : fields.find? (·.name = name) with
  | none =>
    simp only [map_eq_refused_iff, plainly_skip, false_iff]
    rintro ⟨field, heq, -⟩
    cases heq
  | some field =>
    by_cases hnew : name ∈ seen
    · simp only [if_pos hnew]
      constructor
      · nofun
      · rintro ⟨_, -, hnot, -⟩
        exact absurd hnew hnot
    · simp only [if_neg hnew, map_eq_refused_iff]
      constructor
      · exact fun h => ⟨field, rfl, hnew, h⟩
      · rintro ⟨_, heq, -, h⟩
        obtain rfl := Option.some.inj heq
        exact h

end members

/-! ## Objects -/

/-- Whole members, a comma after each. -/
inductive Members (fields : List (Field ε σ)) :
    List String → σ → List Token → List String → σ → Prop where
  | nil (seen : List String) (acc : σ) : Members fields seen acc [] seen acc
  | cons {seen seen' seen'' : List String} {acc acc' acc'' : σ} {name : String} {value front : List Token}
      (first : Member fields seen acc name value seen' acc')
      (rest : Members fields seen' acc' front seen'' acc'') :
      Members fields seen acc (.text name :: .colon :: (value ++ .comma :: front)) seen'' acc''

section members

variable {fields : List (Field ε σ)} {seen seen' : List String} {acc acc' : σ} {name : String}
  {front value ts rest : List Token} {rounds : Nat} {reason : ε}

/-- Reading goes on after whole members. -/
theorem Members.members_append (hfields : ∀ field ∈ fields, field.Lawful)
    (h : Members fields seen acc front seen' acc') :
    ∃ n ≤ front.length, ∀ rounds ts,
      members fields (rounds + n) seen acc (front ++ ts) = members fields rounds seen' acc' ts := by
  induction h with
  | nil => exact ⟨0, Nat.le_refl 0, fun _ _ => rfl⟩
  | @cons seen seen' seen'' acc acc' acc'' name value front first _ ih =>
    obtain ⟨n, hn, hmembers⟩ := ih
    -- A member takes one round, and has more than one token.
    refine ⟨n + 1, ?_, fun rounds ts => ?_⟩
    · simp only [List.length_cons, List.length_append]
      omega
    · have htake : takeMember fields seen acc name (value ++ .comma :: (front ++ ts)) =
          .ok ((seen', acc'), .comma :: (front ++ ts)) :=
        (takeMember_eq_ok_iff hfields).2 ⟨value, rfl, first⟩
      rw [List.cons_append, List.cons_append, List.append_assoc, List.cons_append, ← Nat.add_assoc,
        members_succ, htake]
      exact hmembers rounds ts

/-- Reading that is refused has taken whole members before. -/
theorem exists_of_members_refused (hfields : ∀ field ∈ fields, field.Lawful)
    (h : members fields rounds seen acc ts = .error (.refused reason)) :
    ∃ front seen' acc' name field rest, ts = front ++ .text name :: .colon :: rest ∧
      Members fields seen acc front seen' acc' ∧ fields.find? (·.name = name) = some field ∧ name ∉ seen' ∧
      field.read acc' rest = .error (.refused reason) := by
  induction rounds generalizing seen acc ts with
  | zero => cases h
  | succ rounds ih =>
    obtain ⟨name, ts', rfl, ⟨reason', htake, heq⟩ | ⟨value, seen₁, acc₁, rest, hmember, hnext⟩⟩ :=
      members_cases hfields (by rw [h]; nofun)
    · rw [heq] at h
      cases h
      obtain ⟨field, hfind, hnew, hread⟩ := takeMember_refused_iff.1 htake
      exact ⟨[], seen, acc, name, field, ts', rfl, .nil seen acc, hfind, hnew, hread⟩
    · obtain ⟨rfl, heq⟩ | ⟨rfl, -, heq⟩ := hnext
      · rw [heq] at h
        obtain ⟨front, seen', acc', name', field, rest', rfl, hfront, hfield⟩ := ih h
        exact ⟨_, seen', acc', name', field, rest', by simp, .cons hmember hfront, hfield⟩
      · rw [heq] at h
        cases h

/-- A record that is read from members is read from whole members and a last one, after which it closes. -/
theorem exists_of_members_ok (hfields : ∀ field ∈ fields, field.Lawful)
    (h : members fields rounds seen acc ts = .ok (acc', rest)) :
    ∃ front seen₁ acc₁ name value seen', ts = front ++ .text name :: .colon :: (value ++ .closeObject :: rest) ∧
      Members fields seen acc front seen₁ acc₁ ∧ Member fields seen₁ acc₁ name value seen' acc' ∧
      (fields.all fun f => !f.required || seen'.contains f.name) = true := by
  induction rounds generalizing seen acc ts with
  | zero => cases h
  | succ rounds ih =>
    obtain ⟨name, value, seen₁, acc₁, later, rfl, hmember, ⟨next, rfl, hnext⟩ | ⟨rfl, rfl, hall⟩⟩ :=
      members_ok_cases hfields h
    · obtain ⟨front, seen₂, acc₂, name', value', seen', rfl, hfront, hlast⟩ := ih hnext
      exact ⟨_, seen₂, acc₂, name', value', seen', by simp, .cons hmember hfront, hlast⟩
    · exact ⟨[], seen, acc, name, value, seen₁, rfl, .nil seen acc, hmember, hall⟩

/-- A last member ends the record. -/
theorem Member.members_close (hfields : ∀ field ∈ fields, field.Lawful)
    (h : Member fields seen acc name value seen' acc')
    (hall : (fields.all fun f => !f.required || seen'.contains f.name) = true) (rest : List Token) :
    members fields (rounds + 1) seen acc (.text name :: .colon :: (value ++ .closeObject :: rest)) =
      .ok (acc', rest) := by
  rw [members_succ, (takeMember_eq_ok_iff hfields).2 ⟨value, rfl, h⟩]
  exact if_pos hall

end members

end ReadThrough.Json
