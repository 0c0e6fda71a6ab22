import ReadThrough.Proofs.Key.Spelling
import ReadThrough.Proofs.Paging.Cursor
import ReadThrough.Proofs.Text.Bytes
/-!
# Which texts are cursors

A cursor is read as a key if and only if it stands for the bytes of a text that is the key
(`Cursor.decode?_eq_some_iff`). So what is not base64 in its one form, what is not UTF-8, and what is not
a key is refused (`Cursor.Faulty`), and different cursors have different bytes (`Cursor.codec`).
-/

namespace ReadThrough.Cursor

open Json

/-! ## What is read -/

/-- Bytes are read as the text whose bytes they are. -/
theorem fromUTF8?_eq_some_iff {bytes : List UInt8} {text : String} :
    String.fromUTF8? ⟨bytes.toArray⟩ = some text ↔ textBytes text = bytes := by
  constructor
  · intro h
    rw [String.fromUTF8?] at h
    split at h
    · obtain rfl := Option.some.inj h
      rfl
    · cases h
  · rintro rfl
    rw [textBytes, Array.toArray_toList]
    exact fromUTF8?_toUTF8 text

/-- Texts of the same bytes are the same. -/
theorem textBytes_inj {s t : String} (h : textBytes s = textBytes t) : s = t :=
  Option.some.inj ((fromUTF8?_eq_some_iff.2 rfl).symm.trans (fromUTF8?_eq_some_iff.2 h.symm))

/-- A cursor is read as a key if it stands for the bytes of a text that is the key. -/
theorem decode?_eq_some_iff {cursor : String} {k : Key} :
    decode? cursor = some k ↔ ∃ text : String,
      Base64Url.StandsFor cursor.toList (textBytes text) ∧ k.Written text.toList := by
  simp only [decode?, Option.bind_eq_bind, Option.bind_eq_some_iff, fromUTF8?_eq_some_iff,
    Key.ofJson?_eq_some_iff, Base64Url.decode_eq_some_iff_standsFor]
  constructor
  · rintro ⟨bytes, hstands, text, rfl, hwritten⟩
    exact ⟨text, hstands, hwritten⟩
  · rintro ⟨text, hstands, hwritten⟩
    exact ⟨_, hstands, text, rfl, hwritten⟩

/-- A cursor that is read as a key stands for the bytes of a text that is the key, and for no others. -/
theorem written_of_decode? {cursor : String} {k : Key} {bytes : List UInt8}
    (h : decode? cursor = some k) (hbytes : Base64Url.StandsFor cursor.toList bytes) :
    ∃ text : String, textBytes text = bytes ∧ k.Written text.toList := by
  obtain ⟨text, hstands, hwritten⟩ := decode?_eq_some_iff.1 h
  refine ⟨text, ?_, hwritten⟩
  rw [← Base64Url.decode_eq_some_iff_standsFor] at hstands hbytes
  exact Option.some.inj (hstands.symm.trans hbytes)

/-! ## What is refused -/

/-- What may be wrong with a text that is no cursor. -/
inductive Faulty (cursor : String) : Prop where
  /-- There is a character in it that is no symbol, as the padding of other forms of base64 is none. -/
  | foreign {c : Char} (mem : c ∈ cursor.toList) (noSymbol : Base64Url.isSymbol c = false)
  /-- It has as many symbols as no number of bytes has. -/
  | length (one : cursor.toList.length % 4 = 1)
  /-- A bit of its last symbol that belongs to no byte is set. -/
  | strayBits {c : Char} {n : Nat} (last : cursor.toList.getLast? = some c)
      (sextet : Base64Url.sextet? c = some n)
      (stray : cursor.toList.length % 4 = 2 ∧ n % 16 ≠ 0 ∨ cursor.toList.length % 4 = 3 ∧ n % 4 ≠ 0)
  /-- Its bytes are those of no text. -/
  | noText {bytes : List UInt8} (stands : Base64Url.StandsFor cursor.toList bytes)
      (none : ∀ text : String, textBytes text ≠ bytes)
  /-- Its text is unquoted and has the point or the power of a float in it. -/
  | float {text : String} (stands : Base64Url.StandsFor cursor.toList (textBytes text))
      (unquoted : '"' ∉ text.toList)
      (mark : '.' ∈ text.toList ∨ 'e' ∈ text.toList ∨ 'E' ∈ text.toList)
  /-- Its text is an integer that needs more than 64 bits. -/
  | outOfRange {text : String} {before after : List Char} {i : Int}
      (stands : Base64Url.StandsFor cursor.toList (textBytes text))
      (integer : text.toList = before ++ (decimal i ++ after))
      (blankBefore : ∀ c ∈ before, isGap c = true) (blankAfter : ∀ c ∈ after, isGap c = true)
      (far : i < Int64.minValue.toInt ∨ Int64.maxValue.toInt < i)

/-- A text with a fault is not read as a key. -/
theorem Faulty.decode?_eq_none {cursor : String} (h : Faulty cursor) : decode? cursor = none := by
  rw [Option.eq_none_iff_forall_ne_some]
  intro k hk
  obtain ⟨text', hstands', hwritten'⟩ := decode?_eq_some_iff.1 hk
  have hencode : cursor.toList = Base64Url.encode (textBytes text') :=
    Base64Url.eq_encode_of_decode (Base64Url.decode_eq_some_iff_standsFor.2 hstands')
  cases h with
  | foreign mem noSymbol =>
    rw [hencode] at mem
    exact Bool.false_ne_true (noSymbol.symm.trans (Base64Url.isSymbol_of_mem_encode mem))
  | length one =>
    rw [hencode] at one
    exact Base64Url.length_encode_ne _ one
  | strayBits last sextet stray =>
    rw [hencode] at last stray
    obtain ⟨htwo, hthree⟩ := Base64Url.low_bits_encode last sextet
    obtain ⟨hlength, hne⟩ | ⟨hlength, hne⟩ := stray
    · exact hne (htwo hlength)
    · exact hne (hthree hlength)
  | noText stands none =>
    obtain ⟨text, htext, -⟩ := written_of_decode? hk stands
    exact none text htext
  | @float text stands unquoted mark =>
    obtain ⟨text', htext, hwritten⟩ := written_of_decode? hk stands
    obtain rfl : text' = text := textBytes_inj htext
    exact hwritten.unbent unquoted mark
  | @outOfRange text before after i stands integer blankBefore blankAfter far =>
    obtain ⟨text', htext, hwritten⟩ := written_of_decode? hk stands
    obtain rfl : text' = text := textBytes_inj htext
    have hends : ∀ c ∈ after.head?, ends c = true := fun c hc =>
      Key.ends_of_isGap (blankAfter c (List.mem_of_mem_head? hc))
    obtain ⟨t, hlex, ht⟩ := Key.ofJson?_eq_some_iff_lex.1 (Key.ofJson?_eq_some_iff.2 hwritten)
    rw [lex, integer, lexFrom_gaps blankBefore, lexFrom_decimal i hends] at hlex
    obtain rfl : Token.number (.ofInt i) = t := (List.cons.inj hlex).1
    obtain ⟨n, m, hm, hn, -⟩ | ⟨s, hs, -⟩ := Key.ofToken?_eq_some_iff.1 ht
    · obtain rfl := Token.number.inj hm
      rw [Number.int?_ofInt] at hn
      obtain rfl := Option.some.inj hn
      have hlow := Int64.minValue_le_toInt n
      have hhigh := Int64.toInt_le n
      omega
    · cases hs

/-- Cursors are a faithful and strict code for keys. -/
theorem codec :
    (∀ k, decode? (encode k) = some k ∧ ∀ c ∈ (encode k).toList, Base64Url.isSymbol c = true) ∧
    (∀ cursor k, decode? cursor = some k ↔ ∃ text : String,
      Base64Url.StandsFor cursor.toList (textBytes text) ∧ k.Written text.toList) ∧
    (∀ cursor, Faulty cursor → decode? cursor = none) ∧
    ∀ (cursor cursor' : String) (bytes : List UInt8), Base64Url.StandsFor cursor.toList bytes →
      Base64Url.StandsFor cursor'.toList bytes → cursor = cursor' := by
  refine ⟨fun k => ⟨decode?_encode k, ?_⟩, fun _ _ => decode?_eq_some_iff,
    fun _ => Faulty.decode?_eq_none, ?_⟩
  · intro c hc
    rw [encode, String.toList_ofList] at hc
    exact Base64Url.isSymbol_of_mem_encode hc
  · intro cursor cursor' bytes h h'
    rw [← Base64Url.decode_eq_some_iff_standsFor] at h h'
    exact String.toList_inj.1
      ((Base64Url.eq_encode_of_decode h).trans (Base64Url.eq_encode_of_decode h').symm)

/-- A blank and an escape in a text, padding, and a bit that belongs to no byte. -/
theorem codec_spelled :
    decode? "ICJcdTAwNDEi" = some (.text "A") ∧ decode? "MQ==" = none ∧ decode? "MR" = none ∧
      ∀ cursor : String, Base64Url.StandsFor cursor.toList [49] → cursor = "MQ" := by
  have hblank : Base64Url.StandsFor "ICJcdTAwNDEi".toList (textBytes " \"\\u0041\"") :=
    Base64Url.decode_eq_some_iff_standsFor.1 (by decide)
  have hone : Base64Url.StandsFor "MQ".toList [49] :=
    Base64Url.decode_eq_some_iff_standsFor.1 (by decide)
  have hletter : Spells ['\\', 'u', '0', '0', '4', '1'] 'A' :=
    .unit (n := 65) (by decide) (.inl (by decide))
  have hspelled : Key.Written " \"\\u0041\"".toList (.text "A") :=
    ⟨[' '], _, [], rfl, List.forall_mem_singleton.2 rfl, .text (.cons hletter .nil), nofun⟩
  have hpadded : Faulty "MQ==" := .foreign (c := '=') (by decide) (by decide)
  have hstray : Faulty "MR" := .strayBits (c := 'R') (n := 17) (by decide) (by decide) (by decide)
  obtain ⟨-, hread, hrefused, hinj⟩ := codec
  exact ⟨(hread _ _).2 ⟨_, hblank, hspelled⟩, hrefused _ hpadded, hrefused _ hstray,
    fun cursor h => hinj cursor "MQ" _ h hone⟩

end ReadThrough.Cursor
