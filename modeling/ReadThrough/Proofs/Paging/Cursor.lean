import ReadThrough.Paging.Cursor
import ReadThrough.Proofs.Invalidation.Message
import ReadThrough.Proofs.Text.Base64Url
/-!
# Cursors name the keys they were made of

The text of a key is read as that key (`Key.ofJson?_toJson`), and so is its cursor (`decode?_encode`),
whether the key is an integer or a text and whatever the text is.
-/

namespace ReadThrough

open Json

/-- The text of a key is read as that key. -/
theorem Key.ofJson?_toJson (k : Key) : ofJson? k.toJson = some k := by
  have hplain : Plain [k.token] := k.plainValue_token.plain
  rw [ofJson?, toJson, decode, lex_write hplain]
  simp only [readAll, single, ofToken?_token]
  rfl

/-- The bytes of a text are read as that text. -/
theorem fromUTF8?_toUTF8 (s : String) : String.fromUTF8? s.toUTF8 = some s :=
  dif_pos s.isValidUTF8

/-- The cursor of a key is read as that key. -/
theorem Cursor.decode?_encode (k : Key) : decode? (encode k) = some k := by
  have hbytes : Base64Url.decode (encode k).toList = some k.toJson.toUTF8.data.toList := by
    rw [encode, String.toList_ofList, Base64Url.decode_encode]
  have htext : String.fromUTF8? ⟨k.toJson.toUTF8.data.toList.toArray⟩ = some k.toJson := by
    rw [Array.toArray_toList]
    exact fromUTF8?_toUTF8 k.toJson
  rw [decode?, hbytes]
  show (String.fromUTF8? ⟨k.toJson.toUTF8.data.toList.toArray⟩).bind Key.ofJson? = some k
  rw [htext]
  exact k.ofJson?_toJson

end ReadThrough
