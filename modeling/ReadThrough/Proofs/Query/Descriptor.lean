import ReadThrough.Proofs.Paging.Page
import ReadThrough.Query.Request
/-!
# Requests that are written are read back

A request is written as a record of what it asks for (`Request.read_tokens`), so its text is read as that request
(`Request.ofJson_toJson`), whatever it leaves out.
-/

namespace ReadThrough

open Json

namespace Request

/-! ## The parts of a request -/

theorem plainValue_keys (keys : List Key) : PlainValue (array (keys.map fun k => [k.token])) := by
  refine .array fun v hv => ?_
  obtain ⟨k, -, rfl⟩ := List.mem_map.1 hv
  cases k with
  | int n => exact plainValue_ofInt n.toInt
  | text s => exact plainValue_ofText s

theorem plainValue_texts (names : List String) : PlainValue (array (names.map ofText)) := by
  refine .array fun v hv => ?_
  obtain ⟨s, -, rfl⟩ := List.mem_map.1 hv
  exact plainValue_ofText s

theorem plainValue_order (o : Order) : PlainValue (orderTokens o) := by
  refine .object (List.forall_mem_cons.2 ⟨plainValue_ofText _, List.forall_mem_singleton.2 ?_⟩)
  exact plainValue_ofText _

theorem read_direction {ε : Type} (d : Direction) (rest : List Token) :
    (Direction.read (ofText d.name ++ rest) : Except (Fault ε) _) = .ok (d, rest) := by
  cases d <;> rfl

/-- The tokens of an order are read as that order. -/
theorem record_orderTokens (o : Order) (rest : List Token) :
    record orderFields { column := "" } (orderTokens o ++ rest) = .ok (o, rest) := by
  obtain ⟨column, direction⟩ := o
  have hcolumn : Takes orderFields { column := "" } [("column", ofText column)] { column } :=
    .single rfl fun rest => Field.read_req (single_ofText column rest)
  have hdirection : Takes orderFields { column } [("direction", ofText direction.name)]
      { column, direction } :=
    .single rfl fun rest => Field.read_opt (read_direction direction rest)
  have hnames : ∀ field ∈ orderFields, field.name ∈ ["column", "direction"] := by decide
  have hnodup : ["column", "direction"].Nodup := by decide
  exact (hcolumn.append hdirection).record_object hnodup (fun field hfield _ => hnames field hfield) rest

/-! ## Whole requests -/

theorem plainValue_tokens (r : Request) : PlainValue r.tokens := by
  have part : ∀ {α : Type} {name : String} {a : Option α} {tokens : α → List Token},
      (∀ b, PlainValue (tokens b)) → ∀ m ∈ optional name (a.map tokens), PlainValue m.2 := by
    intro α name a tokens h
    refine forall_mem_optional.2 fun v hv => ?_
    obtain ⟨b, -, rfl⟩ := Option.map_eq_some_iff.1 hv
    exact h b
  refine .object ?_
  simp only [List.forall_mem_append]
  exact ⟨⟨⟨⟨⟨part plainValue_keys, part fun n => plainValue_ofInt n.toNat⟩, part plainValue_ofText⟩,
    part Page.plainValue_tokens⟩, part plainValue_order⟩, part plainValue_texts⟩

/-- The members of a request are written in the order of its fields. -/
theorem sublist_names (r : Request) : ((optional "ids" (r.ids.map fun keys => array (keys.map fun k => [k.token])) ++
    optional "random" (r.random.map fun n => ofInt n.toNat) ++
    optional "category" (r.category.map ofText) ++
    optional "page" (r.page.map Page.tokens) ++
    optional "order_by" (r.orderBy.map orderTokens) ++
    optional "fields" (r.fields.map fun names => array (names.map ofText))).map Prod.fst).Sublist
      ["ids", "random", "category", "page", "order_by", "fields"] := by
  simp only [List.map_append]
  exact (((((map_fst_optional_sublist "ids" _).append (map_fst_optional_sublist "random" _)).append
    (map_fst_optional_sublist "category" _)).append (map_fst_optional_sublist "page" _)).append
    (map_fst_optional_sublist "order_by" _)).append (map_fst_optional_sublist "fields" _)

/-- The tokens of a request are read as that request. -/
theorem read_tokens (r : Request) (rest : List Token) : read (r.tokens ++ rest) = .ok (r, rest) := by
  have hnodup := r.sublist_names.nodup (by decide)
  obtain ⟨ids, random, category, page, orderBy, fields⟩ := r
  have hids : Takes requestFields {}
      (optional "ids" (ids.map fun keys => array (keys.map fun k => [k.token]))) { ids } := by
    refine .optional rfl (by rintro rfl; rfl) ?_
    rintro keys rfl rest
    exact Field.read_opt (nullable_of_read (list_array (fun k _ => k.ofToken?_token) rfl rest) nofun)
  have hrandom : Takes requestFields { ids } (optional "random" (random.map fun n => ofInt n.toNat))
      { ids, random } := by
    refine .optional rfl (by rintro rfl; rfl) ?_
    rintro n rfl rest
    exact Field.read_opt (nullable_single (uint32?_ofInt n) rfl rest)
  have hcategory : Takes requestFields { ids, random } (optional "category" (category.map ofText))
      { ids, random, category } := by
    refine .optional rfl (by rintro rfl; rfl) ?_
    rintro s rfl rest
    exact Field.read_opt (nullable_single (text?_text s) rfl rest)
  have hpage : Takes requestFields { ids, random, category } (optional "page" (page.map Page.tokens))
      { ids, random, category, page } := by
    refine .optional rfl (by rintro rfl; rfl) ?_
    rintro p rfl rest
    refine Field.read_opt (nullable_of_read (p.read_tokens rest) ?_)
    cases p <;> nofun
  have horder : Takes requestFields { ids, random, category, page }
      (optional "order_by" (orderBy.map orderTokens)) { ids, random, category, page, orderBy } := by
    refine .optional rfl (by rintro rfl; rfl) ?_
    rintro o rfl rest
    exact Field.read_opt (nullable_of_read (record_orderTokens o rest) nofun)
  have hfields : Takes requestFields { ids, random, category, page, orderBy }
      (optional "fields" (fields.map fun names => array (names.map ofText)))
      { ids, random, category, page, orderBy, fields } := by
    refine .optional rfl (by rintro rfl; rfl) ?_
    rintro names rfl rest
    exact Field.read_opt (nullable_of_read (list_array (fun s _ => text?_text s) rfl rest) nofun)
  exact (((((hids.append hrandom).append hcategory).append hpage).append horder).append
    hfields).record_object hnodup (forall_required (by decide)) rest

/-- The text of a request is read as that request. -/
theorem ofJson_toJson (r : Request) : ofJson r.toJson = .ok r := by
  have hread := r.read_tokens []
  rw [List.append_nil] at hread
  rw [ofJson, toJson, decode, lex_write r.plainValue_tokens.plain, readAll, hread]
  rfl

/-- The text of a request is read as that request, so it is answered in the same mode or refused for the same reason.
Hence a text that can be read says the same when its request is written anew. -/
theorem descriptors :
    (∀ r : Request, ofJson r.toJson = .ok r ∧ (ofJson r.toJson).bind mode = r.mode) ∧
      ∀ s r, ofJson s = .ok r → ofJson r.toJson = .ok r :=
  ⟨fun r => ⟨r.ofJson_toJson, by rw [ofJson_toJson]; rfl⟩, fun _ r _ => r.ofJson_toJson⟩

/-- A list with nulls in it, an order that leaves out its direction and a page that says nothing. -/
theorem descriptors_unruly :
    ∃ r, ofJson "[[1,\"1\"],null,\"n\\u0065ws\",[],[\"title\"]]" = .ok r ∧ r.page = some (.cursor none none) ∧
      r.ids = some [.int 1, .text "1"] ∧ ofJson r.toJson = .ok r := by
  have hread : ofJson "[[1,\"1\"],null,\"n\\u0065ws\",[],[\"title\"]]" =
      .ok ⟨some [.int 1, .text "1"], none, some "news", some (.cursor none none), some { column := "title" },
        none⟩ := rfl
  exact ⟨_, hread, rfl, rfl, descriptors.2 _ _ hread⟩

end Request

end ReadThrough
