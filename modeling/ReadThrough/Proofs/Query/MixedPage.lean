import ReadThrough.Proofs.Json.Cutting
import ReadThrough.Proofs.Json.Parts
import ReadThrough.Proofs.Query.Descriptor
/-!
# Pages of both kinds at once

The page is the only part of a request that is refused for a reason of its own, when its value gives fields of both
kinds (`Page.Fields.Mixed`). So a text is refused for it if and only if such a value comes after a beginning that
leads up to the page (`Request.OpensPage`), whatever follows the value; and the page of a text that is read is
what such a value says.
-/

namespace ReadThrough

open Json

/-! ## Pages -/

namespace Page

theorem lawful_fields : ∀ field ∈ fields, field.Lawful := by
  simp only [fields, List.forall_mem_cons]
  exact ⟨Field.lawful_opt (streams_nullable (streams_single _)) fun _ => rfl,
    Field.lawful_opt (streams_nullable (streams_single _)) fun _ => rfl,
    Field.lawful_opt (streams_nullable (streams_single _)) fun _ => rfl,
    Field.lawful_opt (streams_nullable (streams_single _)) fun _ => rfl, nofun⟩

theorem plainly_fields : Plainly (record fields {}) := by
  refine plainly_record lawful_fields ?_
  simp only [fields, List.forall_mem_cons]
  exact ⟨plainly_opt (plainly_nullable (plainly_single _)),
    plainly_opt (plainly_nullable (plainly_single _)),
    plainly_opt (plainly_nullable (plainly_single _)),
    plainly_opt (plainly_nullable (plainly_single _)), nofun⟩

theorem read_eq_ok_iff {ts rest : List Token} {p : Page} :
    read ts = .ok (p, rest) ↔ ∃ f, record fields {} ts = .ok (f, rest) ∧ ¬ f.Mixed ∧ f.asked = p := by
  rw [read_eq]
  cases record fields {} ts with
  | error fault => exact ⟨nofun, nofun⟩
  | ok pair =>
    obtain ⟨f, rest'⟩ := pair
    show (if f.Mixed then Except.error (Fault.refused PagingError.mixed) else .ok (f.asked, rest')) = _ ↔ _
    constructor
    · intro h
      split at h
      · cases h
      · rename_i hmixed
        cases h
        exact ⟨f, rfl, hmixed, rfl⟩
    · rintro ⟨_, heq, hmixed, rfl⟩
      cases heq
      exact if_neg hmixed

theorem read_eq_refused_iff {ts : List Token} {reason : PagingError} : read ts = .error (.refused reason) ↔
    reason = .mixed ∧ ∃ f rest, record fields {} ts = .ok (f, rest) ∧ f.Mixed := by
  rw [read_eq]
  cases hrecord : record fields {} ts with
  | error fault =>
    constructor
    · rintro h
      cases h
      exact absurd hrecord (plainly_fields ts reason)
    · nofun
  | ok pair =>
    obtain ⟨f, rest'⟩ := pair
    show (if f.Mixed then Except.error (Fault.refused PagingError.mixed) else .ok (f.asked, rest')) = _ ↔ _
    constructor
    · intro h
      split at h
      · rename_i hmixed
        cases h
        exact ⟨rfl, f, rest', rfl, hmixed⟩
      · cases h
    · rintro ⟨rfl, _, _, heq, hmixed⟩
      cases heq
      exact if_pos hmixed

end Page

namespace Request

/-! ## The place of the page -/

/-- The field of the page. -/
def pageField : Field PagingError Request := .opt "page" (nullable Page.read) fun r v => { r with page := v }

theorem streams_page : Streams Page.read := by
  intro ts p rest h
  obtain ⟨f, hf, hmixed, rfl⟩ := Page.read_eq_ok_iff.1 h
  obtain ⟨t, value, rfl, hvalue⟩ := streams_record Page.lawful_fields ts f rest hf
  exact ⟨t, value, rfl, fun rest' => Page.read_eq_ok_iff.2 ⟨f, hvalue rest', hmixed, rfl⟩⟩

theorem lawful_orderFields : ∀ field ∈ orderFields, field.Lawful := by
  simp only [orderFields, List.forall_mem_cons]
  exact ⟨Field.lawful_req (streams_single _) fun _ => rfl,
    Field.lawful_opt (streams_choice _) fun _ => rfl, nofun⟩

theorem plainly_order : Plainly (record orderFields { column := "" }) := by
  refine plainly_record lawful_orderFields ?_
  simp only [orderFields, List.forall_mem_cons]
  exact ⟨plainly_req (plainly_single _), plainly_opt (plainly_choice _), nofun⟩

theorem lawful_requestFields : ∀ field ∈ requestFields, field.Lawful := by
  simp only [requestFields, List.forall_mem_cons]
  exact ⟨Field.lawful_opt (streams_nullable (streams_list _)) fun _ => rfl,
    Field.lawful_opt (streams_nullable (streams_single _)) fun _ => rfl,
    Field.lawful_opt (streams_nullable (streams_single _)) fun _ => rfl,
    Field.lawful_opt (streams_nullable streams_page) fun _ => rfl,
    Field.lawful_opt (streams_nullable (streams_record lawful_orderFields)) fun _ => rfl,
    Field.lawful_opt (streams_nullable (streams_list _)) fun _ => rfl, nofun⟩

/-- The page is the only part of a request that is refused. -/
theorem eq_pageField_or_plainly :
    ∀ field ∈ requestFields, field = pageField ∨ field.name ≠ "page" ∧ ∀ acc, Plainly (field.read acc) := by
  simp only [requestFields, List.forall_mem_cons]
  exact ⟨.inr ⟨by decide, plainly_opt (plainly_nullable (plainly_list _))⟩,
    .inr ⟨by decide, plainly_opt (plainly_nullable (plainly_single _))⟩,
    .inr ⟨by decide, plainly_opt (plainly_nullable (plainly_single _))⟩,
    .inl rfl,
    .inr ⟨by decide, plainly_opt (plainly_nullable plainly_order)⟩,
    .inr ⟨by decide, plainly_opt (plainly_nullable (plainly_list _))⟩, nofun⟩

/-- Only the field of the page sets the page. -/
theorem setBy_page : SetBy requestFields "page" Request.page := by
  unfold SetBy
  simp only [requestFields, List.forall_mem_cons]
  exact ⟨fun _ => opt_view_eq fun _ _ => rfl, fun _ => opt_view_eq fun _ _ => rfl,
    fun _ => opt_view_eq fun _ _ => rfl, fun h => absurd rfl h, fun _ => opt_view_eq fun _ _ => rfl,
    fun _ => opt_view_eq fun _ _ => rfl, nofun⟩

/-- A text that leads up to the value of the page. -/
def OpensPage (before : String) : Prop := ∃ r, LeadsTo requestFields {} (lex before) pageField r

/-- The value of the page is refused if and only if its fields are read and mixed. -/
theorem pageField_refused_iff {r : Request} {ts : List Token} {reason : PagingError} :
    pageField.read r ts = .error (.refused reason) ↔
      reason = .mixed ∧ ∃ f rest, record Page.fields {} ts = .ok (f, rest) ∧ f.Mixed := by
  rw [← Page.read_eq_refused_iff, pageField, Field.opt, map_eq_refused_iff]
  by_cases hnull : ∃ rest, ts = .null :: rest
  · obtain ⟨rest, rfl⟩ := hnull
    constructor <;> intro h <;> cases h
  · rw [nullable, map_eq_refused_iff]
    rintro rest rfl
    exact hnull ⟨rest, rfl⟩

/-- The value of the page sets a page if and only if its fields are read and not mixed. -/
theorem pageField_ok_iff {r r' : Request} {ts rest : List Token} {p : Page} :
    (pageField.read r ts = .ok (r', rest) ∧ r'.page = some p) ↔
      ∃ f, record Page.fields {} ts = .ok (f, rest) ∧ ¬ f.Mixed ∧ f.asked = p ∧ { r with page := some p } = r' := by
  rw [pageField, Field.opt_eq_ok_iff]
  constructor
  · rintro ⟨⟨p', hread, rfl⟩, hp⟩
    obtain rfl : p' = some p := hp
    unfold nullable at hread
    split at hread
    · cases hread
    · obtain ⟨p', hpage, heq⟩ := map_eq_ok_iff.1 hread
      obtain rfl := Option.some.inj heq
      obtain ⟨f, hf, hmixed, hasked⟩ := Page.read_eq_ok_iff.1 hpage
      exact ⟨f, hf, hmixed, hasked, rfl⟩
  · rintro ⟨f, hf, hmixed, rfl, rfl⟩
    refine ⟨⟨_, nullable_of_read (Page.read_eq_ok_iff.2 ⟨f, hf, hmixed, rfl⟩) ?_, rfl⟩, rfl⟩
    intro hnull
    obtain ⟨rest', rfl⟩ := List.head?_eq_some_iff.1 hnull
    cases hf

/-! ## Texts -/

/-- A text is refused for its page if and only if a mixed value comes where it leads up to the page. -/
theorem decode_read_refused_iff {s : String} {reason : PagingError} :
    decode read s = .error (.refused reason) ↔ reason = .mixed ∧
      ∃ before value after f, s = before ++ value ++ after ∧ OpensPage before ∧
        decode (record Page.fields {}) value = .ok f ∧ f.Mixed := by
  rw [decode_eq_refused_iff, read, record_refused_iff lawful_requestFields]
  constructor
  · rintro ⟨front, field, r, ts, hs, hleads, hread⟩
    obtain rfl | ⟨-, hplain⟩ := eq_pageField_or_plainly field hleads.mem
    · obtain ⟨rfl, f, rest, hf, hmixed⟩ := pageField_refused_iff.1 hread
      obtain ⟨before, value, after, rfl, rfl, hvalue⟩ := exists_of_leadsTo Page.lawful_fields hs hleads hf
      exact ⟨rfl, before, value, after, f, rfl, ⟨r, hleads⟩, hvalue, hmixed⟩
    · exact absurd hread (hplain r ts reason)
  · rintro ⟨rfl, before, value, after, f, rfl, ⟨r, hleads⟩, hvalue, hmixed⟩
    obtain ⟨hs, hread⟩ := lex_around Page.lawful_fields hleads.endsInMark hvalue after
    exact ⟨lex before, pageField, r, _, hs, hleads, pageField_refused_iff.2 ⟨rfl, f, _, hread _, hmixed⟩⟩

/-- The page of a text that is read is what the value says to which the text leads up. -/
theorem page_eq_some_iff {s : String} {r : Request} {p : Page} (h : decode read s = .ok r) :
    r.page = some p ↔ ∃ before value after f, s = before ++ value ++ after ∧ OpensPage before ∧
      decode (record Page.fields {}) value = .ok f ∧ ¬ f.Mixed ∧ f.asked = p := by
  have hnodup : (requestFields.map Field.name).Nodup := by decide
  rw [decode_eq_ok_iff, read] at h
  constructor
  · intro hp
    obtain ⟨front, field, r₀, value, r₁, after, hs, hleads, hname, hread, hpage⟩ :=
      exists_of_view_ne lawful_requestFields setBy_page hnodup h (hp ▸ Option.some_ne_none p)
    obtain rfl | ⟨hother, -⟩ := eq_pageField_or_plainly field hleads.mem
    · obtain ⟨f, hf, hmixed, hasked, -⟩ := pageField_ok_iff.1 ⟨hread, hpage.trans hp⟩
      have hrecord : record Page.fields {} (value ++ after) = .ok (f, after) := by
        obtain ⟨tokens, htokens, -, hrecord⟩ := record_value Page.lawful_fields hf
        rw [List.append_nil] at htokens
        exact htokens ▸ hrecord after
      obtain ⟨before, value, after, rfl, rfl, hvalue⟩ := exists_of_leadsTo Page.lawful_fields hs hleads hrecord
      exact ⟨before, value, after, f, rfl, ⟨r₀, hleads⟩, hvalue, hmixed, hasked⟩
    · exact absurd hname hother
  · rintro ⟨before, value, after, f, rfl, ⟨r₀, hleads⟩, hvalue, hmixed, rfl⟩
    obtain ⟨hs, -⟩ := lex_around Page.lawful_fields hleads.endsInMark hvalue after
    obtain ⟨hread, hpage⟩ := pageField_ok_iff.2 ⟨f, decode_eq_ok_iff.1 hvalue, hmixed, rfl, rfl⟩
    rw [hs] at h
    exact (hleads.view_eq lawful_requestFields setBy_page hnodup hread h).trans hpage

/-- Where a text leads up to the page it can be ended, whatever page is put there. -/
theorem OpensPage.exists_ending {before : String} (h : OpensPage before) : ∃ ending, ∃ r : Request,
    ∀ p : Page, decode read (before ++ p.toJson ++ ending) = .ok { r with page := some p } := by
  obtain ⟨r, hleads⟩ := h
  obtain ⟨close, hclose, hrecord⟩ := hleads.record_close lawful_requestFields (by decide)
  have hplain : Plain [close] := by
    rcases hclose with rfl | rfl <;> exact trivial
  refine ⟨write [close], r, fun p => ?_⟩
  have hvalue : decode (record Page.fields {}) p.toJson = .ok p.given := by
    have hread := p.record_tokens []
    rw [List.append_nil] at hread
    rw [decode_eq_ok_iff, Page.toJson, lex_write p.plainValue_tokens.plain, hread]
  obtain ⟨hs, -⟩ := lex_around Page.lawful_fields hleads.endsInMark hvalue (write [close])
  obtain ⟨hmixed, hasked⟩ := Page.ofFields_eq_ok_iff.1 p.ofFields_given
  rw [decode_eq_ok_iff, hs, lex_write hplain]
  exact hrecord _ _ (pageField_ok_iff.2 ⟨p.given, decode_eq_ok_iff.1 hvalue, hmixed, hasked, rfl⟩).1

/-- A request is refused with the sentence about fields of both kinds if and only if its text goes on with a page
value that is read and mixed where it leads up to the page, and then nothing that follows matters. The sentence
stands here without the place in the text that a reader of JSON adds to it. What leads up to the page can be ended
as the text of a request. A page that is read is one by number when a number or a size is given, the first unless
the number says otherwise, and one by cursor when neither is given. -/
theorem mixed_pages :
    (∀ s, (∃ e, ofJson s = .error e ∧ e.message = "malformed request: invalid request descriptor: " ++
          "offset fields (page, size) and cursor fields (after, first) cannot be combined") ↔
        ∃ before value after f, s = before ++ value ++ after ∧ OpensPage before ∧
          decode (record Page.fields {}) value = .ok f ∧ f.Mixed) ∧
      (∀ before value f, OpensPage before → decode (record Page.fields {}) value = .ok f → f.Mixed →
        ∀ after, ofJson (before ++ value ++ after) = .error (.malformed (.descriptor (some .mixed)))) ∧
      (∀ before, OpensPage before → ∃ ending, ∃ r : Request, ∀ p : Page,
        ofJson (before ++ p.toJson ++ ending) = .ok { r with page := some p }) ∧
      ∀ s r, ofJson s = .ok r → ∀ p, r.page = some p ↔
        ∃ before value after f, s = before ++ value ++ after ∧ OpensPage before ∧
          decode (record Page.fields {}) value = .ok f ∧ ¬ f.Mixed ∧ f.asked = p := by
  refine ⟨fun s => ⟨?_, ?_⟩, ?_, ?_, ?_⟩
  · rintro ⟨e, he, hmessage⟩
    rw [ofJson] at he
    split at he
    · cases he
    · cases he
      exact absurd hmessage (by decide)
    · rename_i reason hread
      exact (decode_read_refused_iff.1 hread).2
  · intro h
    refine ⟨.malformed (.descriptor (some .mixed)), ?_, rfl⟩
    rw [ofJson, decode_read_refused_iff.2 ⟨rfl, h⟩]
  · intro before value f hbefore hvalue hmixed after
    rw [ofJson, decode_read_refused_iff.2 ⟨rfl, before, value, after, f, rfl, hbefore, hvalue, hmixed⟩]
  · intro before hbefore
    obtain ⟨ending, r, hread⟩ := hbefore.exists_ending
    exact ⟨ending, r, fun p => by rw [ofJson, hread]⟩
  · intro s r h p
    rw [ofJson] at h
    split at h <;> cases h
    rename_i hread
    exact page_eq_some_iff hread

theorem opensPage_unruly : OpensPage "\x7b\"x\" : [1e999, \"\\ud800\"], \"random\":null, \"page\" : " := by
  have hlex : lex "\x7b\"x\" : [1e999, \"\\ud800\"], \"random\":null, \"page\" : " =
      .openObject :: ((.text "x" :: .colon ::
        ([.openArray, .number { whole := 1, exponent := some 999 }, .comma, .unpaired, .closeArray] ++ .comma ::
        .text "random" :: .colon :: ([.null] ++ .comma :: []))) ++ [.text "page", .colon]) := by decide +kernel
  rw [OpensPage, hlex]
  exact ⟨{}, .member (.cons (.unknown rfl rfl) (.cons (.known rfl (by decide) rfl) (.nil _ _))) rfl (by decide)⟩

theorem opensPage_list : OpensPage "[null,3,null," := by
  have hlex : lex "[null,3,null," = .openArray :: ([.null] ++ .comma :: ([.number { whole := 3 }] ++ .comma ::
      ([.null] ++ .comma :: []))) := by decide +kernel
  rw [OpensPage, hlex]
  exact ⟨{ random := some 3 }, .place (.cons rfl (.cons rfl (.cons rfl (.nil _ _))))⟩

/-- A mixed page among members that nobody asks for, and pages of a list. -/
theorem mixed_pages_unruly :
    ofJson ("\x7b\"x\" : [1e999, \"\\ud800\"], \"random\":null, \"page\" : " ++
        "\x7b\"first\":5, \"page\":null, \"y\":[], \"size\":2\x7d" ++ ",\"random\":\"?") =
        .error (.malformed (.descriptor (some .mixed))) ∧
      (∃ ending, ∃ r : Request, ∀ p : Page,
        ofJson ("[null,3,null," ++ p.toJson ++ ending) = .ok { r with page := some p }) ∧
      ((∃ e, ofJson "[null,3,null,[1,null,\"k\"],7" = .error e ∧
        e.message = "malformed request: invalid request descriptor: " ++
          "offset fields (page, size) and cursor fields (after, first) cannot be combined")) ∧
      ∃ before value after f, "[null,3,null,[null,7]]" = before ++ value ++ after ∧ OpensPage before ∧
          decode (record Page.fields {}) value = .ok f ∧ ¬ f.Mixed ∧ f.asked = .offset 1 (some 7) :=
  ⟨mixed_pages.2.1 _ _ { size := some 2, first := some 5 } opensPage_unruly rfl (by decide) _,
    mixed_pages.2.2.1 _ opensPage_list,
    (mixed_pages.1 _).2 ⟨"[null,3,null,", "[1,null,\"k\"]", ",7", { page := some 1, after := some "k" }, rfl,
      opensPage_list, rfl, by decide⟩,
    (mixed_pages.2.2.2 _ { random := some 3, page := some (.offset 1 (some 7)) } rfl _).1 rfl⟩

end Request

end ReadThrough
