import ReadThrough.Proofs.Json.Members
import ReadThrough.Proofs.Json.Places
/-!
# What stands before the value of a field

The tokens before the value of a field are the members before it, each of them whole, or the values of the fields
before it (`LeadsTo`). A record is refused exactly where the value of a field is refused after such tokens
(`record_refused_iff`), and where that value is read the record may be closed at once (`LeadsTo.record_close`).
-/

namespace ReadThrough.Json

variable {ε σ : Type}

/-- Tokens that lead up to the value of a field of a record, and what has been read of the record till
then. -/
inductive LeadsTo (fields : List (Field ε σ)) (blank : σ) : List Token → Field ε σ → σ → Prop where
  | member {front : List Token} {seen : List String} {acc : σ} {name : String} {field : Field ε σ}
      (members : Members fields [] blank front seen acc)
      (find : fields.find? (·.name = name) = some field) (new : name ∉ seen) :
      LeadsTo fields blank (.openObject :: (front ++ [.text name, .colon])) field acc
  | place {front : List Token} {field : Field ε σ} {left : List (Field ε σ)} {acc : σ}
      (places : Places fields blank front (field :: left) acc) :
      LeadsTo fields blank (.openArray :: front) field acc

section record

variable {fields : List (Field ε σ)} {blank acc acc' : σ} {field : Field ε σ} {seen : List String}
  {name : String} {front value ts rest : List Token} {reason : ε}

/-- There are always rounds enough for the members of an object. -/
theorem Members.record_append (hfields : ∀ field ∈ fields, field.Lawful)
    (h : Members fields [] blank front seen acc) (name : String) (ts : List Token) :
    ∃ rounds, record fields blank (.openObject :: (front ++ .text name :: .colon :: ts)) =
      members fields (rounds + 1) seen acc (.text name :: .colon :: ts) := by
  obtain ⟨n, hn, hmembers⟩ := h.members_append hfields
  refine ⟨front.length - n + ts.length + 1, ?_⟩
  rw [← hmembers, record]
  · congr 1
    simp only [List.length_append, List.length_cons]
    omega
  · intro rest heq
    cases h <;> cases heq

/-- A record is refused where the value of a field is refused, after whole members or values. -/
theorem record_refused_iff (hfields : ∀ field ∈ fields, field.Lawful) :
    record fields blank ts = .error (.refused reason) ↔
      ∃ front field acc rest, ts = front ++ rest ∧ LeadsTo fields blank front field acc ∧
        field.read acc rest = .error (.refused reason) := by
  constructor
  · intro h
    unfold record at h
    split at h
    · split at h <;> cases h
    · obtain ⟨front, seen, acc, name, field, rest, rfl, hfront, hfind, hnew, hread⟩ :=
        exists_of_members_refused hfields h
      exact ⟨_, field, acc, rest, by simp, .member hfront hfind hnew, hread⟩
    · obtain ⟨front, field, left, acc, rest, rfl, hfront, hread⟩ := exists_of_positions_refused hfields h
      exact ⟨_, field, acc, rest, rfl, .place hfront, hread⟩
    · cases h
  · rintro ⟨front, field, acc, rest, rfl, hleads, hread⟩
    cases hleads with
    | @member front seen _ name _ hfront find new =>
      obtain ⟨rounds, heq⟩ := hfront.record_append hfields name rest
      rw [List.cons_append, List.append_assoc, List.cons_append, List.singleton_append, heq, members_succ,
        takeMember_refused_iff.2 ⟨field, find, new, hread⟩]
      rfl
    | @place front _ left _ hfront =>
      have hhead : rest.head? ≠ some .closeArray := by
        intro heq
        obtain ⟨rest, rfl⟩ := List.head?_eq_some_iff.1 heq
        rw [(hfields field (hfront.suffix.mem List.mem_cons_self)).opens] at hread
        cases hread
      show positions fields true blank (front ++ rest) = _
      rw [hfront.positions_append hfields hhead, positions_true hhead, hread]
      rfl

theorem LeadsTo.mem (h : LeadsTo fields blank front field acc) : field ∈ fields := by
  cases h with
  | member _ find _ => exact List.mem_of_find?_eq_some find
  | place places => exact places.suffix.mem List.mem_cons_self

/-- A record that may lack the rest of its fields may close after any value of a field. -/
theorem LeadsTo.record_close (hfields : ∀ field ∈ fields, field.Lawful) (hany : fields.any (·.required) = false)
    (h : LeadsTo fields blank front field acc) :
    ∃ close, (close = .closeObject ∨ close = .closeArray) ∧ ∀ value acc', field.read acc value = .ok (acc', []) →
      record fields blank (front ++ (value ++ [close])) = .ok (acc', []) := by
  cases h with
  | @member front seen _ name _ hfront find new =>
    refine ⟨.closeObject, .inl rfl, fun value acc' hread => ?_⟩
    obtain ⟨rounds, heq⟩ := hfront.record_append hfields name (value ++ [.closeObject])
    rw [List.cons_append, List.append_assoc, List.cons_append, List.singleton_append, heq]
    refine Member.members_close hfields (.known find new hread) ?_ []
    rw [List.all_eq_true]
    intro field' hfield'
    simp [List.any_eq_false.1 hany field' hfield']
  | @place front _ left _ hfront =>
    refine ⟨.closeArray, .inr rfl, fun value acc' hread => ?_⟩
    have hfield := hfields field (hfront.suffix.mem List.mem_cons_self)
    have hleft : left.any (·.required) = false := by
      rw [List.any_eq_false] at hany ⊢
      exact fun field' hfield' => hany field' (hfront.suffix.mem (List.mem_cons_of_mem _ hfield'))
    obtain ⟨hhead, hvalue⟩ := hfield.read_append hread [.closeArray]
    show positions fields true blank (front ++ (value ++ [.closeArray])) = _
    rw [hfront.positions_append hfields hhead, positions_true hhead, hvalue]
    exact positions_close false hleft

/-- A record ends with its bracket, and is read from the tokens up to there whatever follows. -/
theorem record_closes (hfields : ∀ field ∈ fields, field.Lawful) (h : record fields blank ts = .ok (acc, rest)) :
    ∃ t front close, (close = .closeObject ∨ close = .closeArray) ∧ ts = t :: (front ++ close :: rest) ∧
      ∀ rest', record fields blank (t :: (front ++ close :: rest')) = .ok (acc, rest') := by
  unfold record at h
  split at h
  · split at h
    · cases h
    · rename_i hany
      cases h
      exact ⟨.openObject, [], .closeObject, .inl rfl, rfl, fun rest' => if_neg hany⟩
  · obtain ⟨front, seen, acc₁, name, value, seen', rfl, hfront, hlast, hall⟩ := exists_of_members_ok hfields h
    refine ⟨.openObject, front ++ .text name :: .colon :: value, .closeObject, .inl rfl, by simp, fun rest' => ?_⟩
    obtain ⟨rounds, heq⟩ := hfront.record_append hfields name (value ++ .closeObject :: rest')
    rw [List.append_assoc, List.cons_append, List.cons_append, heq]
    exact hlast.members_close hfields hall rest'
  · obtain ⟨rfl, rfl, hany⟩ | ⟨front, field, left, acc₁, value, rfl, hfront, hread, hleft⟩ :=
      exists_of_positions_ok hfields h
    · exact ⟨.openArray, [], .closeArray, .inr rfl, rfl, fun rest' => positions_close true hany⟩
    · refine ⟨.openArray, front ++ value, .closeArray, .inr rfl, by simp, fun rest' => ?_⟩
      have hfield := hfields field (hfront.suffix.mem List.mem_cons_self)
      obtain ⟨hhead, hvalue⟩ := hfield.read_append hread (.closeArray :: rest')
      show positions fields true blank (front ++ value ++ .closeArray :: rest') = _
      rw [List.append_assoc, hfront.positions_append hfields hhead, positions_true hhead, hvalue]
      exact positions_close false hleft
  · cases h

theorem streams_record (hfields : ∀ field ∈ fields, field.Lawful) : Streams (record fields blank) := by
  intro ts acc rest h
  obtain ⟨t, front, close, -, rfl, hread⟩ := record_closes hfields h
  exact ⟨t, front ++ [close], by simp, fun rest' => by simpa using hread rest'⟩

/-- A record of fields that are never refused is never refused. -/
theorem plainly_record (hfields : ∀ field ∈ fields, field.Lawful)
    (hplain : ∀ field ∈ fields, ∀ acc, Plainly (field.read acc)) : Plainly (record fields blank) := by
  intro ts reason h
  obtain ⟨front, field, acc, rest, -, hleads, hread⟩ := (record_refused_iff hfields).1 h
  exact hplain field hleads.mem acc rest reason hread

end record

end ReadThrough.Json
