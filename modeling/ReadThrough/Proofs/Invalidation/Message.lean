import ReadThrough.Invalidation.Message
import ReadThrough.Proofs.Json.Record
import ReadThrough.Proofs.Text.Uuid
/-!
# Messages arrive as they were sent

The payload of a message is read as that message (`Message.decode?_encode`), whatever its segment and its
key are. So different messages have different payloads, and every payload that can be read, in whatever form
it came, says the same after it has been read and written again (`Message.payloads`).
-/

namespace ReadThrough

open Json

/-- The token of a key may stand where a value may. -/
theorem Key.plainValue_token (k : Key) : PlainValue [k.token] := by
  cases k with
  | int n => exact plainValue_ofInt n.toInt
  | text s => exact plainValue_ofText s

namespace Message

theorem readAction_name (a : Action) (rest : List Token) :
    readAction (.text a.name :: rest) = .ok (a, rest) := by
  cases a <;> rfl

/-- The token of an origin is read as that origin. -/
theorem uuid?_text (u : Uuid) : uuid? (.text u.toString) = some u := by
  rw [uuid?, text?_text, Option.bind_some, Uuid.ofString?_toString]

theorem plainValue_tokens (m : Message) : PlainValue m.tokens := by
  refine .object ?_
  simp only [List.forall_mem_append]
  refine ⟨⟨?_, forall_mem_optional.2 ?_⟩, forall_mem_optional.2 ?_⟩
  · exact List.forall_mem_cons.2
      ⟨plainValue_ofText _, List.forall_mem_singleton.2 (plainValue_ofText _)⟩
  · intro v hv
    obtain ⟨k, -, rfl⟩ := Option.map_eq_some_iff.1 hv
    exact k.plainValue_token
  · intro v hv
    obtain ⟨u, -, rfl⟩ := Option.map_eq_some_iff.1 hv
    exact plainValue_ofText _

/-- The tokens of a message are read as that message. -/
theorem read_tokens (m : Message) (rest : List Token) : read (m.tokens ++ rest) = .ok (m, rest) := by
  obtain ⟨action, segment, key, origin⟩ := m
  have haction : Takes fields default [("action", ofText action.name)] { (default : Message) with action } :=
    .single rfl fun rest => Field.read_req (readAction_name action rest)
  have hsegment : Takes fields { (default : Message) with action } [("segment", ofText segment)]
      { action, segment } :=
    .single rfl fun rest => Field.read_req (single_ofText segment rest)
  have hkey : Takes fields { action, segment } (optional "id" (key.map fun k => [k.token]))
      { action, segment, key } := by
    refine .optional rfl (by rintro rfl; rfl) ?_
    rintro k rfl rest
    exact Field.read_opt (nullable_single k.ofToken?_token rfl rest)
  have horigin : Takes fields { action, segment, key } (optional "origin" (origin.map fun u => ofText u.toString))
      { action, segment, key, origin } := by
    refine .optional rfl (by rintro rfl; rfl) ?_
    rintro u rfl rest
    exact Field.read_opt (nullable_single (uuid?_text u) rfl rest)
  have hnames : (["action", "segment"] ++ ["id"] ++ ["origin"]).Nodup := by decide
  refine (((haction.append hsegment).append hkey).append horigin).record_object ?_ ?_ rest
  · simp only [List.map_append]
    exact (((List.Sublist.refl ["action", "segment"]).append (map_fst_optional_sublist "id" _)).append
      (map_fst_optional_sublist "origin" _)).nodup hnames
  · have hrequired : ∀ field ∈ fields, field.required = true → field.name ∈ ["action", "segment"] := by decide
    intro field hfield hreq
    simp only [List.map_append]
    exact List.mem_append_left _ (List.mem_append_left _ (hrequired field hfield hreq))

/-- The payload of a message is read as that message. -/
theorem decode?_encode (m : Message) : decode? m.encode = some m := by
  have hread := m.read_tokens []
  rw [List.append_nil] at hread
  rw [decode?, encode, decode, lex_write m.plainValue_tokens.plain, readAll, hread]
  rfl

theorem encode_inj {m m' : Message} (h : m.encode = m'.encode) : m = m' := by
  have hread := m.decode?_encode
  rw [h, decode?_encode] at hread
  exact (Option.some.inj hread).symm

/-- The payload of a message is read as that message. So no two messages have one payload, a message names a key
after it has been sent if and only if it named one before, and a key that is a number is told from a key that is its
text. A payload that can be read, however it was written, says the same when its message is written anew. -/
theorem payloads :
    (∀ m : Message, decode? m.encode = some m) ∧
      (∀ m m' : Message, m.encode = m'.encode → m = m') ∧
      (∀ m m' : Message, decode? m.encode = some m' → (m'.key = none ↔ m.key = none)) ∧
      (∀ (m : Message) (n : Int64) (s : String),
        encode { m with key := some (.int n) } ≠ encode { m with key := some (.text s) }) ∧
      ∀ payload m, decode? payload = some m → decode? m.encode = some m := by
  refine ⟨decode?_encode, fun _ _ => encode_inj, ?_, ?_, fun _ m _ => m.decode?_encode⟩
  · intro m m' h
    rw [decode?_encode] at h
    obtain rfl := Option.some.inj h
    rfl
  · intro m n s h
    have hkeys := congrArg Message.key (encode_inj h)
    cases hkeys

/-- Members in another order, members that nobody asks for, nulls, lists and another spelling of an origin. -/
theorem payloads_unruly :
    (∃ m, decode? ("\x7b\"x\":[1e999,\x7b\"a\":null\x7d], \"segment\":\"T\\u00e4g\",\"id\":null," ++
        "\"origin\":\"urn:UUID:00000000-0000-0000-0000-00000000A1B2\"," ++
        "\"action\":\x7b\"delete\":null\x7d\x7d") = some m ∧
        m.key = none ∧ m.origin = some ⟨0xA1B2⟩ ∧ decode? m.encode = some m) ∧
      ∃ m, decode? "[\"clear\",\"Tag\",\"5\"]" = some m ∧ m.key = some (.text "5") ∧
        decode? m.encode = some m := by
  refine ⟨⟨{ action := .delete, segment := "Täg", origin := some ⟨0xA1B2⟩ }, by decide +kernel, rfl, rfl, ?_⟩,
    ⟨{ action := .clear, segment := "Tag", key := some (.text "5") }, by decide +kernel, rfl, ?_⟩⟩
  · exact payloads.1 _
  · exact payloads.2.2.2.2 "[\"clear\",\"Tag\",\"5\"]" _ (by decide +kernel)

end Message

end ReadThrough
