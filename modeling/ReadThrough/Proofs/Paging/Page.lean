import ReadThrough.Paging.Page
import ReadThrough.Proofs.Json.Record
/-!
# Pages that are written are read back

A page is refused if and only if it is given fields of both kinds (`Page.read_eq`). It is written as a record of one
kind of fields, so it is read as the page it is (`Page.read_tokens`), also when all its fields are left out.
-/

namespace ReadThrough.Page

open Json

theorem plainValue_tokens (p : Page) : PlainValue p.tokens := by
  cases p with
  | offset page size =>
    refine .object (List.forall_mem_cons.2 ⟨plainValue_ofInt _, forall_mem_optional.2 ?_⟩)
    rintro v hv
    obtain ⟨n, -, rfl⟩ := Option.map_eq_some_iff.1 hv
    exact plainValue_ofInt _
  | cursor after first =>
    refine .object (List.forall_mem_append.2 ⟨forall_mem_optional.2 ?_, forall_mem_optional.2 ?_⟩)
    · rintro v hv
      obtain ⟨s, -, rfl⟩ := Option.map_eq_some_iff.1 hv
      exact plainValue_ofText s
    · rintro v hv
      obtain ⟨n, -, rfl⟩ := Option.map_eq_some_iff.1 hv
      exact plainValue_ofInt _

/-! ## Fields of both kinds -/

/-- A page is given by number and by cursor at once. -/
def Fields.Mixed (f : Fields) : Prop := (f.page.isSome ∨ f.size.isSome) ∧ (f.after.isSome ∨ f.first.isSome)

instance (f : Fields) : Decidable f.Mixed := inferInstanceAs (Decidable (_ ∧ _))

/-- The page that fields of one kind ask for. -/
def Fields.asked (f : Fields) : Page :=
  if f.page.isSome ∨ f.size.isSome then .offset (f.page.getD 1) f.size else .cursor f.after f.first

theorem ofFields_eq (f : Fields) : ofFields f = if f.Mixed then .error .mixed else .ok f.asked := by
  rw [ofFields, Fields.asked]
  by_cases hoffset : f.page.isSome ∨ f.size.isSome
  · rw [if_pos hoffset, if_pos hoffset]
    by_cases hcursor : f.after.isSome ∨ f.first.isSome
    · rw [if_pos hcursor, if_pos ⟨hoffset, hcursor⟩]
    · rw [if_neg hcursor, if_neg fun h => hcursor h.2]
  · rw [if_neg hoffset, if_neg hoffset, if_neg fun h => hoffset h.1]

theorem ofFields_eq_ok_iff {f : Fields} {p : Page} : ofFields f = .ok p ↔ ¬ f.Mixed ∧ f.asked = p := by
  rw [ofFields_eq]
  split
  · rename_i hmixed
    exact ⟨nofun, fun h => absurd hmixed h.1⟩
  · rename_i hmixed
    exact ⟨fun h => ⟨hmixed, Except.ok.inj h⟩, fun h => congrArg Except.ok h.2⟩

/-- A page is read as its fields are, and then they must be of one kind. -/
theorem read_eq (ts : List Token) : read ts = (record fields {} ts).bind fun (f, rest) =>
    if f.Mixed then .error (.refused .mixed) else .ok (f.asked, rest) := by
  rw [read]
  cases record fields {} ts with
  | error fault => rfl
  | ok pair =>
    obtain ⟨f, rest⟩ := pair
    have hfields := ofFields_eq f
    by_cases hmixed : f.Mixed
    · rw [if_pos hmixed] at hfields
      simp only [bind, Except.bind, hfields, if_pos hmixed]
    · rw [if_neg hmixed] at hfields
      simp only [bind, Except.bind, hfields, if_neg hmixed]

/-! ## Pages that are written -/

/-- The fields that are written of a page. -/
def given : Page → Fields
  | .offset page size => { page := some page, size }
  | .cursor after first => { after, first }

theorem ofFields_given (p : Page) : ofFields p.given = .ok p := by
  cases p <;> rfl

/-- The fields of a page are read as they were written. -/
theorem record_tokens (p : Page) (rest : List Token) :
    record fields {} (p.tokens ++ rest) = .ok (p.given, rest) := by
  cases p with
  | offset page size =>
    have hpage : Takes fields {} [("page", ofInt page.toNat)] { page := some page } :=
      .single rfl fun _ => Field.read_opt (nullable_single (uint32?_ofInt page) rfl _)
    have hsize : Takes fields { page := some page } (optional "size" (size.map fun n => ofInt n.toNat))
        { page := some page, size } := by
      refine .optional rfl (by rintro rfl; rfl) ?_
      rintro n rfl rest
      exact Field.read_opt (nullable_single (uint32?_ofInt n) rfl rest)
    refine (hpage.append hsize).record_object ?_ (forall_required (by decide)) rest
    exact ((List.Sublist.refl ["page"]).append (map_fst_optional_sublist "size" _)).nodup (by decide)
  | cursor after first =>
    have hafter : Takes fields {} (optional "after" (after.map ofText)) { after } := by
      refine .optional rfl (by rintro rfl; rfl) ?_
      rintro s rfl rest
      exact Field.read_opt (nullable_single (text?_text s) rfl rest)
    have hfirst : Takes fields { after } (optional "first" (first.map fun n => ofInt n.toNat))
        { after, first } := by
      refine .optional rfl (by rintro rfl; rfl) ?_
      rintro n rfl rest
      exact Field.read_opt (nullable_single (uint32?_ofInt n) rfl rest)
    refine (hafter.append hfirst).record_object ?_ (forall_required (by decide)) rest
    rw [List.map_append]
    exact ((map_fst_optional_sublist "after" _).append (map_fst_optional_sublist "first" _)).nodup
      (by decide)

/-- The tokens of a page are read as that page. -/
theorem read_tokens (p : Page) (rest : List Token) : read (p.tokens ++ rest) = .ok (p, rest) := by
  obtain ⟨hmixed, hasked⟩ := ofFields_eq_ok_iff.1 p.ofFields_given
  rw [read_eq, record_tokens]
  show (if p.given.Mixed then _ else _) = _
  rw [if_neg hmixed, hasked]

end ReadThrough.Page
