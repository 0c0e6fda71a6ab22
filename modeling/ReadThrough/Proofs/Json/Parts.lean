import ReadThrough.Proofs.Json.Leading
/-!
# Parts of a record

A part of a record that only one field sets (`SetBy`) is what the value of that field makes it. A record whose
part is not blank has such a value somewhere (`exists_of_view_ne`), and what stands after that value does not change
the part (`LeadsTo.view_eq`).
-/

namespace ReadThrough.Json

variable {ε α β σ : Type} {fields left : List (Field ε σ)} {field : Field ε σ} {name name' : String}
  {view : σ → α}
  {seen seen' : List String} {blank acc acc₁ acc' : σ} {front value ts rest after : List Token} {rounds : Nat}

/-- Only the field of a name sets a part of a record. -/
def SetBy (fields : List (Field ε σ)) (name : String) (view : σ → α) : Prop :=
  ∀ field ∈ fields, field.name ≠ name → ∀ acc ts acc' rest,
    field.read acc ts = .ok (acc', rest) → view acc' = view acc

/-- A field that leaves a part of the record as it is. -/
theorem opt_view_eq {read : Reader ε β} {set : σ → β → σ} (hset : ∀ acc b, view (set acc b) = view acc) :
    ∀ acc ts acc' rest, (Field.opt name read set).read acc ts = .ok (acc', rest) → view acc' = view acc := by
  intro acc ts acc' rest h
  obtain ⟨b, -, rfl⟩ := Field.opt_eq_ok_iff.1 h
  exact hset acc b

/-! ## Objects -/

theorem Member.mem_seen (h : Member fields seen acc name' value seen' acc') (hname : name ∈ seen) :
    name ∈ seen' := by
  cases h with
  | known => exact List.mem_cons_of_mem _ hname
  | unknown => exact hname

/-- A member of another name leaves the part as it is. -/
theorem Member.view_eq (hset : SetBy fields name view) (h : Member fields seen acc name' value seen' acc')
    (hname : name' ≠ name) : view acc' = view acc := by
  cases h with
  | known find _ read =>
    exact hset _ (List.mem_of_find?_eq_some find) (name_of_find? find ▸ hname) _ _ _ _ read
  | unknown => rfl

/-- No member sets the part once its name has been seen. -/
theorem Member.view_eq_of_seen (hset : SetBy fields name view) (h : Member fields seen acc name' value seen' acc')
    (hname : name ∈ seen) : view acc' = view acc := by
  by_cases heq : name' = name
  · subst heq
    cases h with
    | known _ new _ => exact absurd hname new
    | unknown => rfl
  · exact h.view_eq hset heq

theorem members_view_eq (hfields : ∀ field ∈ fields, field.Lawful) (hset : SetBy fields name view)
    (h : members fields rounds seen acc ts = .ok (acc', rest)) (hname : name ∈ seen) : view acc' = view acc := by
  induction rounds generalizing seen acc ts with
  | zero => cases h
  | succ rounds ih =>
    obtain ⟨n, value, seen₁, acc₁, later, rfl, hmember, ⟨next, rfl, hnext⟩ | ⟨rfl, rfl, -⟩⟩ :=
      members_ok_cases hfields h
    · rw [ih hnext (hmember.mem_seen hname), hmember.view_eq_of_seen hset hname]
    · exact hmember.view_eq_of_seen hset hname

/-- A part that is set in an object is set by a member of its name. -/
theorem exists_of_members_view_ne (hfields : ∀ field ∈ fields, field.Lawful) (hset : SetBy fields name view)
    (h : members fields rounds seen acc ts = .ok (acc', rest)) (hne : view acc' ≠ view acc) :
    ∃ front seen₁ acc₁ field value acc₂ after, ts = front ++ .text name :: .colon :: (value ++ after) ∧
      Members fields seen acc front seen₁ acc₁ ∧ fields.find? (·.name = name) = some field ∧ name ∉ seen₁ ∧
      field.read acc₁ value = .ok (acc₂, []) ∧ view acc₂ = view acc' := by
  induction rounds generalizing seen acc ts with
  | zero => cases h
  | succ rounds ih =>
    obtain ⟨n, value, seen₁, acc₁, later, rfl, hmember, hnext⟩ := members_ok_cases hfields h
    by_cases hview : view acc₁ = view acc
    · -- The part is set further on.
      obtain ⟨next, rfl, hnext⟩ | ⟨-, rfl, -⟩ := hnext
      · obtain ⟨front, seen₂, acc₂, field, value', acc₃, after, rfl, hfront, hfield⟩ := ih hnext (hview ▸ hne)
        exact ⟨_, seen₂, acc₂, field, value', acc₃, after, by simp, .cons hmember hfront, hfield⟩
      · exact absurd hview hne
    · -- The first member sets it, and no other member has its name.
      have hname : n = name := Decidable.byContradiction fun hother => hview (hmember.view_eq hset hother)
      subst hname
      cases hmember with
      | unknown => exact absurd rfl hview
      | known find new read =>
        refine ⟨[], seen, acc, _, value, acc₁, later, rfl, .nil _ _, find, new, read, ?_⟩
        obtain ⟨next, rfl, hnext⟩ | ⟨-, rfl, -⟩ := hnext
        · exact (members_view_eq hfields hset hnext List.mem_cons_self).symm
        · rfl

/-! ## Lists -/

/-- The value of a field of another name leaves the part as it is. -/
theorem SetBy.tail (hset : SetBy (field :: fields) name view) : SetBy fields name view :=
  fun field' hfield' => hset field' (List.mem_cons_of_mem _ hfield')

theorem positions_view_eq (hfields : ∀ field ∈ fields, field.Lawful) (hset : SetBy fields name view)
    (hname : name ∉ fields.map Field.name) (h : positions fields true acc ts = .ok (acc', rest)) :
    view acc' = view acc := by
  induction fields generalizing acc ts with
  | nil =>
    obtain ⟨-, rfl, -⟩ | ⟨_, field, left, _, _, -, hfront, -⟩ := exists_of_positions_ok hfields h
    · rfl
    · exact absurd (hfront.suffix.mem List.mem_cons_self) List.not_mem_nil
  | cons field fields ih =>
    rw [List.map_cons, List.mem_cons, not_or] at hname
    obtain ⟨-, rfl, -⟩ | ⟨value, rest₁, acc₁, rfl, hread, hnext⟩ := positions_ok_cases hfields h
    · rfl
    have hview := hset field List.mem_cons_self (Ne.symm hname.1) _ _ _ _ hread
    obtain ⟨-, rfl, -⟩ | ⟨rest₂, -, -, h⟩ := hnext
    · exact hview
    · rw [ih (List.forall_mem_cons.1 hfields).2 hset.tail hname.2 h, hview]

/-- A part that is set in a list is set by the value of the field of its name. -/
theorem exists_of_positions_view_ne (hfields : ∀ field ∈ fields, field.Lawful) (hset : SetBy fields name view)
    (hnodup : (fields.map Field.name).Nodup) (h : positions fields true acc ts = .ok (acc', rest))
    (hne : view acc' ≠ view acc) :
    ∃ front field left acc₁ value acc₂ after, ts = front ++ (value ++ after) ∧
      Places fields acc front (field :: left) acc₁ ∧ field.name = name ∧
      field.read acc₁ value = .ok (acc₂, []) ∧ view acc₂ = view acc' := by
  induction fields generalizing acc ts with
  | nil => exact absurd (positions_view_eq hfields hset List.not_mem_nil h) hne
  | cons field fields ih =>
    obtain ⟨-, rfl, -⟩ | ⟨value, rest₁, acc₁, rfl, hread, hnext⟩ := positions_ok_cases hfields h
    · exact absurd rfl hne
    rw [List.map_cons, List.nodup_cons] at hnodup
    by_cases hview : view acc₁ = view acc
    · -- The part is set further on.
      obtain ⟨-, rfl, -⟩ | ⟨rest₂, rfl, -, h⟩ := hnext
      · exact absurd hview hne
      · obtain ⟨front, field', left, acc₂, value', acc₃, after, rfl, hfront, hfield'⟩ :=
          ih (List.forall_mem_cons.1 hfields).2 hset.tail hnodup.2 h (hview ▸ hne)
        exact ⟨_, field', left, acc₂, value', acc₃, after, by simp, .cons hread hfront, hfield'⟩
    · -- The first field sets it, and no other field has its name.
      have hname : field.name = name := Decidable.byContradiction fun hother =>
        hview (hset field List.mem_cons_self hother _ _ _ _ hread)
      refine ⟨[], field, fields, acc, value, acc₁, rest₁, rfl, .nil _ _, hname, hread, ?_⟩
      obtain ⟨-, rfl, -⟩ | ⟨rest₂, -, -, h⟩ := hnext
      · rfl
      · exact (positions_view_eq (List.forall_mem_cons.1 hfields).2 hset.tail (hname ▸ hnodup.1) h).symm

/-! ## Records -/

/-- A part of a record that is not blank is set by a value of the field of its name. -/
theorem exists_of_view_ne (hfields : ∀ field ∈ fields, field.Lawful) (hset : SetBy fields name view)
    (hnodup : (fields.map Field.name).Nodup) (h : record fields blank ts = .ok (acc', rest))
    (hne : view acc' ≠ view blank) :
    ∃ front field acc value acc₁ after, ts = front ++ (value ++ after) ∧ LeadsTo fields blank front field acc ∧
      field.name = name ∧ field.read acc value = .ok (acc₁, []) ∧ view acc₁ = view acc' := by
  unfold record at h
  split at h
  · split at h <;> cases h
    exact absurd rfl hne
  · obtain ⟨front, seen, acc, field, value, acc₁, after, rfl, hfront, hfind, hnew, hread⟩ :=
      exists_of_members_view_ne hfields hset h hne
    exact ⟨_, field, acc, value, acc₁, after, by simp, .member hfront hfind hnew, name_of_find? hfind, hread⟩
  · obtain ⟨front, field, left, acc, value, acc₁, after, rfl, hfront, hread⟩ :=
      exists_of_positions_view_ne hfields hset hnodup h hne
    exact ⟨_, field, acc, value, acc₁, after, rfl, .place hfront, hread⟩
  · cases h

/-- What stands after the value of a field does not change the part that the field sets. -/
theorem LeadsTo.view_eq (hfields : ∀ field ∈ fields, field.Lawful) (hset : SetBy fields field.name view)
    (hnodup : (fields.map Field.name).Nodup) (hleads : LeadsTo fields blank front field acc)
    (hread : field.read acc value = .ok (acc₁, []))
    (h : record fields blank (front ++ (value ++ after)) = .ok (acc', rest)) : view acc' = view acc₁ := by
  cases hleads with
  | @member front seen _ name _ hfront find new =>
    have hname := name_of_find? find
    subst hname
    obtain ⟨rounds, heq⟩ := hfront.record_append hfields field.name (value ++ after)
    rw [List.cons_append, List.append_assoc, List.cons_append, List.singleton_append, heq, members_succ,
      (takeMember_eq_ok_iff hfields).2 ⟨value, rfl, .known find new hread⟩] at h
    cases after with
    | nil => cases h
    | cons t after =>
      cases t with
      | comma => exact members_view_eq hfields hset h List.mem_cons_self
      | closeObject =>
        replace h : (if (fields.all fun f => !f.required || (field.name :: seen).contains f.name) = true then
          Except.ok (acc₁, after) else .error Fault.form) = .ok (acc', rest) := h
        split at h <;> cases h
        rfl
      | _ => cases h
  | @place front _ left _ hfront =>
    have hsuffix := hfront.suffix
    have hfield := hfields field (hsuffix.mem List.mem_cons_self)
    have hleft : ∀ f ∈ left, f.Lawful := fun f hf => hfields f (hsuffix.mem (List.mem_cons_of_mem _ hf))
    obtain ⟨hhead, hvalue⟩ := hfield.read_append hread after
    replace h : positions fields true blank (front ++ (value ++ after)) = .ok (acc', rest) := h
    rw [hfront.positions_append hfields hhead, positions_true hhead, hvalue] at h
    replace h : positions left false acc₁ after = .ok (acc', rest) := h
    obtain ⟨rest', rfl, -, heq⟩ | ⟨next, later, rest', rfl, rfl, -, heq⟩ := positions_cases hleft (by rw [h]; nofun)
    · rw [heq] at h
      cases h
      rfl
    · rw [heq] at h
      refine positions_view_eq hleft (fun f hf => hset f (hsuffix.mem (List.mem_cons_of_mem _ hf))) ?_ h
      have hnames := (hsuffix.map Field.name).sublist.nodup hnodup
      rw [List.map_cons, List.nodup_cons] at hnames
      exact hnames.1

end ReadThrough.Json
