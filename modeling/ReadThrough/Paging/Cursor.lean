import ReadThrough.Key.Json
import ReadThrough.Text.Base64Url
/-!
# Cursors

A cursor names the row after which a page starts. It is the key of that row as JSON, written in
URL-safe base64, so that it can travel in an address.
-/

namespace ReadThrough.Cursor

/-- The cursor of a key. -/
def encode (k : Key) : String :=
  String.ofList (Base64Url.encode k.toJson.toUTF8.data.toList)

/-- The key of a cursor, if the text is base64 of a JSON key. Blanks around the key are allowed. -/
def decode? (cursor : String) : Option Key := do
  let bytes ← Base64Url.decode cursor.toList
  let json ← String.fromUTF8? ⟨bytes.toArray⟩
  Key.ofJson? json

end ReadThrough.Cursor
