import Mathlib.Data.List.Basic
/-!
# Texts in the order of their bytes

A text is before another if its bytes in UTF-8 are before those of the other. This is the order of texts by
code points (`lt_iff_textBytes_lt`).
-/

namespace ReadThrough

/-- The bytes of a text in UTF-8. -/
def textBytes (s : String) : List UInt8 := s.toUTF8.data.toList

theorem textBytes_eq (s : String) : textBytes s = s.toList.flatMap String.utf8EncodeChar := by
  have htext : s.toUTF8 = s.toList.utf8Encode := by
    rw [String.toUTF8, ← String.toByteArray_ofList, String.ofList_toList]
  rw [textBytes, htext, List.utf8Encode, List.data_toByteArray]

/-- Of two numbers the lesser has fewer units of a size, or as many and less beside them. -/
theorem lt_cases_of_lt {a b : Nat} (k : Nat) (h : a < b) :
    a / k < b / k ∨ a / k = b / k ∧ a % k < b % k := by
  rcases Nat.lt_or_eq_of_le (Nat.div_le_div_right (c := k) (Nat.le_of_lt h)) with hdiv | hdiv
  · exact .inl hdiv
  · refine .inr ⟨hdiv, ?_⟩
    have ha := Nat.div_add_mod a k
    have hb := Nat.div_add_mod b k
    rw [hdiv] at ha
    omega

/-- Of two characters the one with the lesser code point has the lesser bytes, whatever follows. -/
theorem encodeChar_append_lt {c d : Char} (h : c < d) (x y : List UInt8) :
    String.utf8EncodeChar c ++ x < String.utf8EncodeChar d ++ y := by
  have hlt : c.val.toNat < d.val.toNat := UInt32.lt_iff_toNat_lt.1 (Char.lt_def.1 h)
  have hbound : d.val.toNat < 2 ^ 21 := by
    have hvalid : d.val.toNat.isValidChar := d.valid
    simp only [Nat.isValidChar] at hvalid
    omega
  have hlast := lt_cases_of_lt 64 hlt
  have hthird : c.val.toNat / 64 < d.val.toNat / 64 → _ := lt_cases_of_lt 64
  have hsecond : c.val.toNat / 4096 < d.val.toNat / 4096 → _ := lt_cases_of_lt 64
  simp only [Nat.div_div_eq_div_mul] at hthird hsecond
  -- The number of bytes grows with the code point, and so does the first byte.
  simp only [String.utf8EncodeChar]
  split_ifs <;>
    simp (disch := omega) only [List.cons_append, List.nil_append, List.cons_lt_cons_iff,
      UInt8.lt_iff_toNat_lt, ← UInt8.toNat_inj, UInt8.toNat_ofNat', Nat.mod_eq_of_lt] <;> omega

theorem flatMap_encodeChar_lt {l l' : List Char} (h : l < l') :
    l.flatMap String.utf8EncodeChar < l'.flatMap String.utf8EncodeChar := by
  induction h with
  | @nil c l =>
    obtain ⟨b, bs, hc⟩ := List.exists_cons_of_ne_nil (String.utf8EncodeChar_ne_nil (c := c))
    rw [List.flatMap_cons, hc]
    exact List.nil_lt_cons _ _
  | rel h => exact encodeChar_append_lt h _ _
  | cons h ih =>
    rw [List.flatMap_cons, List.flatMap_cons]
    exact List.append_left_lt ih

/-- The order of texts by their bytes is that by code points. -/
theorem lt_iff_textBytes_lt (s t : String) : s < t ↔ textBytes s < textBytes t := by
  rw [textBytes_eq, textBytes_eq]
  refine ⟨flatMap_encodeChar_lt, fun h => ?_⟩
  rcases Std.lt_trichotomy s t with hlt | rfl | hgt
  · exact hlt
  · exact absurd h (List.lt_irrefl _)
  · exact absurd (flatMap_encodeChar_lt hgt) (List.lt_asymm h)

end ReadThrough
