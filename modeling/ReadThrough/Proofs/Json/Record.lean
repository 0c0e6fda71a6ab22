import ReadThrough.Proofs.Json.Members
import ReadThrough.Proofs.Json.RoundTrip
/-!
# Records that are written are read back

A record is written as an object of members, each name once. Its members are taken into the record one
after another (`Takes`), so the object is read as the record that they make (`Takes.record_object`). Values that
are put together from plain values are plain (`PlainValue.array`, `PlainValue.object`), so the lexer finds
them in their text.
-/

namespace ReadThrough.Json

variable {ε α σ : Type}

/-! ## Values in a text -/

/-- Tokens that may stand where a value may: before what ends a value, and before nothing. -/
def PlainValue (value : List Token) : Prop :=
  ∀ rest, Plain rest → (∀ t ∈ rest.head?, t.ends = true) → Plain (value ++ rest)

theorem PlainValue.plain {value : List Token} (h : PlainValue value) : Plain value := by
  have hplain := h [] trivial nofun
  rwa [List.append_nil] at hplain

theorem plainValue_ofText (s : String) : PlainValue (ofText s) := fun _ h _ => h

theorem plainValue_ofInt (i : Int) : PlainValue (ofInt i) := fun _ h hends => ⟨⟨i, rfl⟩, hends, h⟩

/-- A comma stands after every value but the last. -/
theorem flatten_intersperse_cons_cons (v w : List Token) (values : List (List Token)) :
    ((v :: w :: values).intersperse [.comma]).flatten =
      v ++ .comma :: ((w :: values).intersperse [.comma]).flatten := rfl

/-- Values with commas between them may stand before a bracket that closes. -/
theorem plain_intersperse {values : List (List Token)} {rest : List Token}
    (h : ∀ v ∈ values, PlainValue v) (hrest : Plain rest) (hends : ∀ t ∈ rest.head?, t.ends = true) :
    Plain ((values.intersperse [.comma]).flatten ++ rest) := by
  induction values with
  | nil => exact hrest
  | cons v values ih =>
    obtain ⟨hv, hvalues⟩ := List.forall_mem_cons.1 h
    cases values with
    | nil =>
      rw [List.intersperse_singleton, List.flatten_singleton]
      exact hv rest hrest hends
    | cons w values =>
      rw [flatten_intersperse_cons_cons, List.append_assoc]
      refine hv _ (ih hvalues) ?_
      rintro t ⟨⟩
      rfl

theorem PlainValue.array {values : List (List Token)} (h : ∀ v ∈ values, PlainValue v) :
    PlainValue (array values) := by
  intro rest hrest _
  show Plain ((values.intersperse [.comma]).flatten ++ [.closeArray] ++ rest)
  rw [List.append_assoc]
  refine plain_intersperse h hrest ?_
  rintro t ⟨⟩
  rfl

theorem PlainValue.object {ms : List (String × List Token)} (h : ∀ m ∈ ms, PlainValue m.2) :
    PlainValue (object ms) := by
  intro rest hrest _
  show Plain (((ms.map fun m => .text m.1 :: .colon :: m.2).intersperse [.comma]).flatten ++
    [.closeObject] ++ rest)
  rw [List.append_assoc]
  refine plain_intersperse ?_ hrest ?_
  · intro v hv
    obtain ⟨m, hm, rfl⟩ := List.mem_map.1 hv
    exact h m hm
  · rintro t ⟨⟩
    rfl

/-! ## Members that may be left out -/

theorem forall_mem_optional {p : String × List Token → Prop} {name : String} {value : Option (List Token)} :
    (∀ m ∈ optional name value, p m) ↔ ∀ v ∈ value, p (name, v) := by
  cases value with
  | none => exact ⟨nofun, nofun⟩
  | some v => simp [optional]

/-- A member that may be left out has its name or none. -/
theorem map_fst_optional_sublist (name : String) (value : Option (List Token)) :
    ((optional name value).map Prod.fst).Sublist [name] := by
  cases value with
  | none => exact List.nil_sublist _
  | some v => exact List.Sublist.refl _

/-! ## Values of one token, and lists of them -/

/-- What is read without a null before it is read where there may be one. -/
theorem nullable_of_read {read : Reader ε α} {ts rest : List Token} {a : α} (h : read ts = .ok (a, rest))
    (hnull : ts.head? ≠ some .null) : nullable read ts = .ok (some a, rest) := by
  rw [nullable, h]
  · rfl
  · rintro rest' rfl
    exact hnull rfl

theorem single_ofText (s : String) (rest : List Token) :
    (single Token.text? (ofText s ++ rest) : Except (Fault ε) _) = .ok (s, rest) := rfl

/-- A value that is written as one token is read back where it may also be missing. -/
theorem nullable_single {one : Token → Option α} {t : Token} {a : α} (h : one t = some a)
    (hnull : one .null = none) (rest : List Token) :
    (nullable (single one) (t :: rest) : Except (Fault ε) _) = .ok (some a, rest) := by
  refine nullable_of_read ?_ ?_
  · rw [single, h]
  · intro heq
    rw [Option.some.inj heq, hnull] at h
    cases h

theorem below?_ofInt {n bound : Nat} (h : n < bound) :
    Token.below? bound (.number (.ofInt n)) = some n := by
  have hbound : (n : Int) < bound := Int.ofNat_lt.2 h
  rw [Token.below?, Token.int?, Number.int?_ofInt, Option.bind_some,
    if_pos ⟨Int.natCast_nonneg n, hbound⟩, Int.toNat_natCast]

theorem text?_text (s : String) : Token.text? (.text s) = some s := rfl

theorem uint32?_ofInt (n : UInt32) : Token.uint32? (.number (.ofInt n.toNat)) = some n := by
  rw [Token.uint32?, below?_ofInt n.toNat_lt, Option.map_some, UInt32.ofNat_toNat]

theorem elements_append {one : Token → Option α} {token : α → Token} {a : α} {l : List α}
    (h : ∀ b ∈ a :: l, one (token b) = some b) (rest : List Token) :
    (elements one ((((a :: l).map fun b => [token b]).intersperse [.comma]).flatten ++
      .closeArray :: rest) : Except (Fault ε) _) = .ok (a :: l, rest) := by
  induction l generalizing a with
  | nil =>
    show elements one (token a :: .closeArray :: rest) = _
    rw [elements, h a List.mem_cons_self]
  | cons b l ih =>
    obtain ⟨ha, hl⟩ := List.forall_mem_cons.1 h
    have htail := ih hl
    rw [List.map_cons] at htail
    rw [List.map_cons, List.map_cons, flatten_intersperse_cons_cons, List.append_assoc,
      List.singleton_append, List.cons_append, elements, ha]
    simp only [htail, Except.map]

/-- A list of values that are written as one token each is read back. -/
theorem list_array {one : Token → Option α} {token : α → Token} {l : List α}
    (h : ∀ a ∈ l, one (token a) = some a) (hclose : one .closeArray = none) (rest : List Token) :
    (list one (array (l.map fun a => [token a]) ++ rest) : Except (Fault ε) _) = .ok (l, rest) := by
  cases l with
  | nil => rfl
  | cons a l =>
    have hne : token a ≠ .closeArray := by
      intro heq
      have ha := h a List.mem_cons_self
      rw [heq, hclose] at ha
      cases ha
    rw [array, List.append_assoc, List.cons_append, List.singleton_append, list]
    · exact elements_append h rest
    · intro rest' heq
      cases l with
      | nil => exact hne (List.cons.inj heq).1
      | cons b l => exact hne (List.cons.inj heq).1

/-! ## Members of a record -/

/-- Members are taken into a record one after another. -/
inductive Takes (fields : List (Field ε σ)) : σ → List (String × List Token) → σ → Prop where
  | nil (acc : σ) : Takes fields acc [] acc
  | cons {acc acc' acc'' : σ} {name : String} {field : Field ε σ} {value : List Token}
      {ms : List (String × List Token)} (known : fields.find? (·.name = name) = some field)
      (read : ∀ rest, field.read acc (value ++ rest) = .ok (acc', rest))
      (tail : Takes fields acc' ms acc'') : Takes fields acc ((name, value) :: ms) acc''

section Takes

variable {fields : List (Field ε σ)} {acc acc' acc'' : σ} {ms ms' : List (String × List Token)}

theorem Takes.append (h : Takes fields acc ms acc') (h' : Takes fields acc' ms' acc'') :
    Takes fields acc (ms ++ ms') acc'' := by
  induction h with
  | nil => exact h'
  | cons known read _ ih => exact .cons known read (ih h')

theorem Takes.single {name : String} {field : Field ε σ} {value : List Token}
    (known : fields.find? (·.name = name) = some field)
    (read : ∀ rest, field.read acc (value ++ rest) = .ok (acc', rest)) :
    Takes fields acc [(name, value)] acc' := .cons known read (.nil _)

/-- A member that is left out leaves the record as it is. -/
theorem Takes.optional {name : String} {field : Field ε σ} {a : Option α} {tokens : α → List Token}
    (known : fields.find? (·.name = name) = some field) (left : a = none → acc' = acc)
    (read : ∀ b, a = some b → ∀ rest, field.read acc (tokens b ++ rest) = .ok (acc', rest)) :
    Takes fields acc (Json.optional name (a.map tokens)) acc' := by
  cases a with
  | none =>
    rw [left rfl]
    exact .nil acc
  | some b => exact .single known (read b rfl)

/-- Members that no member before has named are read one after another. -/
theorem Takes.members {seen : List String} {rounds : Nat} {m : String × List Token}
    (h : Takes fields acc (m :: ms) acc') (hnodup : ((m :: ms).map Prod.fst).Nodup)
    (hseen : ∀ name ∈ (m :: ms).map Prod.fst, name ∉ seen)
    (hall : ∀ field ∈ fields, field.required = true →
      field.name ∈ seen ∨ field.name ∈ (m :: ms).map Prod.fst)
    (hrounds : (m :: ms).length ≤ rounds) (rest : List Token) :
    members fields rounds seen acc
        ((((m :: ms).map fun m => .text m.1 :: .colon :: m.2).intersperse [.comma]).flatten ++
          .closeObject :: rest) = .ok (acc', rest) := by
  induction ms generalizing seen rounds acc m with
  | nil =>
    obtain ⟨rounds, rfl⟩ := Nat.exists_eq_add_of_le' hrounds
    cases h with
    | @cons _ _ _ name field value _ known read tail =>
      cases tail
      rw [List.map_singleton, List.intersperse_singleton, List.flatten_singleton]
      refine members_close known (hseen name List.mem_cons_self) (read _) ?_
      rw [List.all_eq_true]
      intro field hfield
      cases hreq : field.required with
      | false => rfl
      | true => simpa [or_comm] using hall field hfield hreq
  | cons m' ms ih =>
    obtain ⟨rounds, rfl⟩ := Nat.exists_eq_add_of_le' (Nat.le_of_add_left_le hrounds)
    cases h with
    | @cons _ acc₁ _ name field value _ known read tail =>
      obtain ⟨hne, hnodup⟩ := List.nodup_cons.1 hnodup
      rw [List.map_cons, List.map_cons, flatten_intersperse_cons_cons, List.append_assoc]
      refine (members_comma known (hseen name List.mem_cons_self) (read _)).trans (ih tail hnodup ?_ ?_ ?_)
      · intro name' hname' hmem
        obtain rfl | hmem := List.mem_cons.1 hmem
        · exact hne hname'
        · exact hseen name' (List.mem_cons_of_mem _ hname') hmem
      · intro field hfield hreq
        obtain hmem | hmem := hall field hfield hreq
        · exact .inl (List.mem_cons_of_mem _ hmem)
        · obtain heq | hmem := List.mem_cons.1 hmem
          · exact .inl (List.mem_cons.2 (.inl heq))
          · exact .inr hmem
      · exact Nat.le_of_succ_le_succ hrounds

/-- Nothing is asked of the fields that must be there if there are none. -/
theorem forall_required {p : Field ε σ → Prop} (h : fields.any (·.required) = false) :
    ∀ field ∈ fields, field.required = true → p field := fun field hfield hreq =>
  absurd hreq (List.any_eq_false.1 h field hfield)

/-- There are more tokens in an object than members. -/
theorem length_le_flatten (ms : List (String × List Token)) :
    ms.length ≤ ((ms.map fun m => .text m.1 :: .colon :: m.2).intersperse [.comma]).flatten.length := by
  induction ms with
  | nil => exact Nat.zero_le _
  | cons m ms ih =>
    cases ms with
    | nil =>
      show 1 ≤ ((Token.text m.1 :: .colon :: m.2) ++ []).length
      rw [List.append_nil, List.length_cons]
      exact Nat.succ_le_succ (Nat.zero_le _)
    | cons m' ms =>
      rw [List.map_cons] at ih
      rw [List.map_cons, List.map_cons, flatten_intersperse_cons_cons, List.length_append]
      simp only [List.length_cons] at ih ⊢
      omega

/-- The object of members that are taken into a record, each name once, is read as that record. -/
theorem Takes.record_object (h : Takes fields acc ms acc') (hnodup : (ms.map Prod.fst).Nodup)
    (hall : ∀ field ∈ fields, field.required = true → field.name ∈ ms.map Prod.fst) (rest : List Token) :
    record fields acc (object ms ++ rest) = .ok (acc', rest) := by
  rw [object, List.append_assoc, List.cons_append, List.singleton_append]
  cases ms with
  | nil =>
    cases h
    have hnone : fields.any (·.required) = false :=
      List.any_eq_false.2 fun field hfield hreq => absurd (hall field hfield hreq) List.not_mem_nil
    show (if fields.any (·.required) then _ else _) = _
    rw [hnone]
    rfl
  | cons m ms =>
    have hlength := length_le_flatten (m :: ms)
    rw [record]
    · refine h.members hnodup (fun _ _ => List.not_mem_nil)
        (fun field hfield hreq => .inr (hall field hfield hreq)) ?_ rest
      rw [List.length_append]
      omega
    · intro rest' heq
      cases ms <;> cases (List.cons.inj heq).1

end Takes

end ReadThrough.Json
