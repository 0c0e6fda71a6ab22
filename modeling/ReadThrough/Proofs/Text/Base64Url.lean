import ReadThrough.Text.Base64Url
/-!
# Bytes that are written in base64 are read back

A symbol is read as its six bits (`sextet?_symbol`), and the bits of a group of symbols are those of its
bytes. So the text of any bytes is read as those bytes (`decode_encode`).

No other text is read (`decode_eq_some_iff`). What is written has only symbols in it, never one symbol
alone at its end, and no bits in its last symbol that belong to no byte. A text is read as the bytes whose
bits are the bits of its symbols, but for the zeros that fill up the last one
(`decode_eq_some_iff_standsFor`).
-/

namespace ReadThrough.Base64Url

/-- The symbol of six bits is read as these bits. -/
theorem sextet?_symbol {n : Nat} (h : n < 64) : sextet? (symbol n) = some n := by
  have hall : ∀ n : Fin 64, sextet? (symbol n) = some n.val := by
    decide
  exact hall ⟨n, h⟩

theorem ofNat_eq {n : Nat} {a : UInt8} (h : n = a.toNat) : UInt8.ofNat n = a := by
  rw [h, UInt8.ofNat_toNat]

/-- Bytes that are written are read back. -/
theorem decode_encode (bytes : List UInt8) : decode (encode bytes) = some bytes := by
  -- The induction is on groups of three bytes, of which the last may be shorter.
  induction bytes using encode.induct with
  | case1 a b c rest ih =>
    have ha := a.toNat_lt
    have hb := b.toNat_lt
    have hc := c.toNat_lt
    have hfirst := ofNat_eq (a := a) (n := a.toNat / 4 * 4 + (a.toNat % 4 * 16 + b.toNat / 16) / 16)
      (by omega)
    have hsecond := ofNat_eq (a := b) (n := (a.toNat % 4 * 16 + b.toNat / 16) % 16 * 16 +
      (b.toNat % 16 * 4 + c.toNat / 64) / 4) (by omega)
    have hthird := ofNat_eq (a := c) (n := (b.toNat % 16 * 4 + c.toNat / 64) % 4 * 64 + c.toNat % 64)
      (by omega)
    simp (disch := omega) only [encode, decode, sextet?_symbol, ih, Option.bind_eq_bind,
      Option.bind_some, hfirst, hsecond, hthird]
    rfl
  | case2 a b =>
    have ha := a.toNat_lt
    have hb := b.toNat_lt
    have hzero : b.toNat % 16 * 4 % 4 = 0 := by omega
    have hfirst := ofNat_eq (a := a) (n := a.toNat / 4 * 4 + (a.toNat % 4 * 16 + b.toNat / 16) / 16)
      (by omega)
    have hsecond := ofNat_eq (a := b) (n := (a.toNat % 4 * 16 + b.toNat / 16) % 16 * 16 +
      b.toNat % 16 * 4 / 4) (by omega)
    simp (disch := omega) only [encode, decode, sextet?_symbol, Option.bind_eq_bind, Option.bind_some,
      hzero, hfirst, hsecond]
    rfl
  | case3 a =>
    have ha := a.toNat_lt
    have hzero : a.toNat % 4 * 16 % 16 = 0 := by omega
    have hfirst := ofNat_eq (a := a) (n := a.toNat / 4 * 4 + a.toNat % 4 * 16 / 16) (by omega)
    simp (disch := omega) only [encode, decode, sextet?_symbol, Option.bind_eq_bind, Option.bind_some,
      hzero, hfirst]
    rfl
  | case4 => rfl

/-! ## Only what is written is read -/

/-- The symbols are the letters, the digits, the hyphen and the underscore. -/
def isSymbol (c : Char) : Bool :=
  'A' ≤ c ∧ c ≤ 'Z' ∨ 'a' ≤ c ∧ c ≤ 'z' ∨ '0' ≤ c ∧ c ≤ '9' ∨ c = '-' ∨ c = '_'

/-- What stands for six bits is their symbol. -/
theorem symbol_of_sextet? {c : Char} {n : Nat} (h : sextet? c = some n) : n < 64 ∧ symbol n = c := by
  have hA : 'A'.toNat = 65 := rfl
  have ha : 'a'.toNat = 97 := rfl
  have h0 : '0'.toNat = 48 := rfl
  rw [sextet?, hA, ha, h0] at h
  rw [symbol, hA, ha, h0]
  split at h
  · rename_i hc
    cases h
    have hlow : 65 ≤ c.toNat := hc.1
    have hhigh : c.toNat ≤ 90 := hc.2
    have hback : 65 + (c.toNat - 65) = c.toNat := by omega
    rw [if_pos (by omega), hback, Char.ofNat_toNat]
    exact ⟨by omega, rfl⟩
  · split at h
    · rename_i hc
      cases h
      have hlow : 97 ≤ c.toNat := hc.1
      have hhigh : c.toNat ≤ 122 := hc.2
      have hback : 97 + (c.toNat - 97 + 26 - 26) = c.toNat := by omega
      rw [if_neg (by omega), if_pos (by omega), hback, Char.ofNat_toNat]
      exact ⟨by omega, rfl⟩
    · split at h
      · rename_i hc
        cases h
        have hlow : 48 ≤ c.toNat := hc.1
        have hhigh : c.toNat ≤ 57 := hc.2
        have hback : 48 + (c.toNat - 48 + 52 - 52) = c.toNat := by omega
        rw [if_neg (by omega), if_neg (by omega), if_pos (by omega), hback, Char.ofNat_toNat]
        exact ⟨by omega, rfl⟩
      · split at h
        · rename_i hc
          cases h
          exact ⟨by decide, hc.symm⟩
        · split at h
          · rename_i hc
            cases h
            exact ⟨by decide, hc.symm⟩
          · cases h

theorem isSymbol_symbol {n : Nat} (h : n < 64) : isSymbol (symbol n) = true := by
  have hall : ∀ n : Fin 64, isSymbol (symbol n) = true := by
    decide
  exact hall ⟨n, h⟩

theorem toNat_ofNat {n : Nat} (h : n < 256) : (UInt8.ofNat n).toNat = n := by
  rw [UInt8.toNat_ofNat', Nat.mod_eq_of_lt h]

/-- Only what is written is read. -/
theorem eq_encode_of_decode {cs : List Char} {bytes : List UInt8} (h : decode cs = some bytes) :
    cs = encode bytes := by
  induction cs using decode.induct generalizing bytes with
  | case1 a b c d rest ih =>
    simp only [decode, Option.bind_eq_bind, Option.bind_eq_some_iff, Option.pure_def,
      Option.some.injEq] at h
    obtain ⟨na, ha, nb, hb, nc, hc, nd, hd, tail, htail, rfl⟩ := h
    obtain ⟨ha, rfl⟩ := symbol_of_sextet? ha
    obtain ⟨hb, rfl⟩ := symbol_of_sextet? hb
    obtain ⟨hc, rfl⟩ := symbol_of_sextet? hc
    obtain ⟨hd, rfl⟩ := symbol_of_sextet? hd
    have h1 : (na * 4 + nb / 16) / 4 = na := by omega
    have h2 : (na * 4 + nb / 16) % 4 * 16 + (nb % 16 * 16 + nc / 4) / 16 = nb := by omega
    have h3 : (nb % 16 * 16 + nc / 4) % 16 * 4 + (nc % 4 * 64 + nd) / 64 = nc := by omega
    have h4 : (nc % 4 * 64 + nd) % 64 = nd := by omega
    rw [encode, toNat_ofNat (by omega), toNat_ofNat (by omega), toNat_ofNat (by omega), h1, h2, h3, h4,
      ← ih htail]
  | case2 a b c =>
    simp only [decode, Option.bind_eq_bind, Option.bind_eq_some_iff] at h
    obtain ⟨na, ha, nb, hb, nc, hc, h⟩ := h
    split at h
    · rename_i hlast
      cases h
      obtain ⟨ha, rfl⟩ := symbol_of_sextet? ha
      obtain ⟨hb, rfl⟩ := symbol_of_sextet? hb
      obtain ⟨hc, rfl⟩ := symbol_of_sextet? hc
      have h1 : (na * 4 + nb / 16) / 4 = na := by omega
      have h2 : (na * 4 + nb / 16) % 4 * 16 + (nb % 16 * 16 + nc / 4) / 16 = nb := by omega
      have h3 : (nb % 16 * 16 + nc / 4) % 16 * 4 = nc := by omega
      rw [encode, toNat_ofNat (by omega), toNat_ofNat (by omega), h1, h2, h3]
    · cases h
  | case3 a b =>
    simp only [decode, Option.bind_eq_bind, Option.bind_eq_some_iff] at h
    obtain ⟨na, ha, nb, hb, h⟩ := h
    split at h
    · rename_i hlast
      cases h
      obtain ⟨ha, rfl⟩ := symbol_of_sextet? ha
      obtain ⟨hb, rfl⟩ := symbol_of_sextet? hb
      have h1 : (na * 4 + nb / 16) / 4 = na := by omega
      have h2 : (na * 4 + nb / 16) % 4 * 16 = nb := by omega
      rw [encode, toNat_ofNat (by omega), h1, h2]
    · cases h
  | case4 => cases h
  | case5 =>
    cases h
    rfl

theorem decode_eq_some_iff {cs : List Char} {bytes : List UInt8} :
    decode cs = some bytes ↔ cs = encode bytes :=
  ⟨eq_encode_of_decode, fun h => h ▸ decode_encode bytes⟩

/-! ## What is written -/

/-- Only symbols are written. -/
theorem isSymbol_of_mem_encode {bytes : List UInt8} {c : Char} (h : c ∈ encode bytes) :
    isSymbol c = true := by
  induction bytes using encode.induct with
  | case1 a b d rest ih =>
    have ha := a.toNat_lt
    have hb := b.toNat_lt
    have hd := d.toNat_lt
    rw [encode] at h
    simp only [List.mem_cons] at h
    rcases h with rfl | rfl | rfl | rfl | h
    · exact isSymbol_symbol (by omega)
    · exact isSymbol_symbol (by omega)
    · exact isSymbol_symbol (by omega)
    · exact isSymbol_symbol (by omega)
    · exact ih h
  | case2 a b =>
    have ha := a.toNat_lt
    have hb := b.toNat_lt
    rw [encode] at h
    simp only [List.mem_cons, List.not_mem_nil, or_false] at h
    rcases h with rfl | rfl | rfl
    · exact isSymbol_symbol (by omega)
    · exact isSymbol_symbol (by omega)
    · exact isSymbol_symbol (by omega)
  | case3 a =>
    have ha := a.toNat_lt
    rw [encode] at h
    simp only [List.mem_cons, List.not_mem_nil, or_false] at h
    rcases h with rfl | rfl
    · exact isSymbol_symbol (by omega)
    · exact isSymbol_symbol (by omega)
  | case4 => cases h

/-- One symbol cannot stand for a byte. -/
theorem length_encode_ne (bytes : List UInt8) : (encode bytes).length % 4 ≠ 1 := by
  induction bytes using encode.induct with
  | case1 a b c rest ih =>
    rw [encode]
    simp only [List.length_cons]
    omega
  | case2 a b => exact (by decide : 3 % 4 ≠ 1)
  | case3 a => exact (by decide : 2 % 4 ≠ 1)
  | case4 => exact (by decide : 0 % 4 ≠ 1)

/-- The low bits of the last symbol that no byte needs are zero. -/
theorem low_bits_encode {bytes : List UInt8} {c : Char} {n : Nat}
    (hc : (encode bytes).getLast? = some c) (hn : sextet? c = some n) :
    ((encode bytes).length % 4 = 2 → n % 16 = 0) ∧ ((encode bytes).length % 4 = 3 → n % 4 = 0) := by
  induction bytes using encode.induct with
  | case1 x y z rest ih =>
    -- The last symbol is that of the groups that follow, if any do.
    have hsplit : encode (x :: y :: z :: rest) = [symbol (x.toNat / 4),
        symbol (x.toNat % 4 * 16 + y.toNat / 16), symbol (y.toNat % 16 * 4 + z.toNat / 64),
        symbol (z.toNat % 64)] ++ encode rest := by
      rw [encode]
      rfl
    rw [hsplit, List.getLast?_append] at hc
    have hlength : (encode (x :: y :: z :: rest)).length % 4 = (encode rest).length % 4 := by
      rw [hsplit, List.length_append]
      simp
    rw [hlength]
    cases hrest : (encode rest).getLast? with
    | some d =>
      rw [hrest] at hc
      exact ih (hrest.trans hc)
    | none =>
      rw [List.getLast?_eq_none_iff.1 hrest]
      exact ⟨nofun, nofun⟩
  | case2 x y =>
    have hy := y.toNat_lt
    obtain rfl : symbol (y.toNat % 16 * 4) = c := Option.some.inj hc
    rw [sextet?_symbol (by omega)] at hn
    obtain rfl := Option.some.inj hn
    exact ⟨nofun, fun _ => by omega⟩
  | case3 x =>
    have hx := x.toNat_lt
    obtain rfl : symbol (x.toNat % 4 * 16) = c := Option.some.inj hc
    rw [sextet?_symbol (by omega)] at hn
    obtain rfl := Option.some.inj hn
    exact ⟨fun _ => by omega, nofun⟩
  | case4 => cases hc

/-! ## Texts and bytes bit by bit -/

/-- The bits of a number in places, the highest first. -/
def bits (places n : Nat) : List Nat := (List.range places).map fun i => n >>> (places - 1 - i) % 2

/-- The text stands for the bytes: the bits of its symbols are those of the bytes, with fewer zeros after
them than a symbol has bits. -/
def StandsFor (cs : List Char) (bytes : List UInt8) : Prop :=
  ∃ (sextets : List Nat) (zeros : Nat), cs = sextets.map symbol ∧ (∀ n ∈ sextets, n < 64) ∧ zeros < 6 ∧
    sextets.flatMap (bits 6) = bytes.flatMap (fun b => bits 8 b.toNat) ++ List.replicate zeros 0

@[simp] theorem length_bits (places n : Nat) : (bits places n).length = places := by
  rw [bits, List.length_map, List.length_range]

theorem length_flatMap_bits {α : Type} {f : α → List Nat} {places : Nat}
    (hf : ∀ a, (f a).length = places) (l : List α) : (l.flatMap f).length = l.length * places := by
  induction l with
  | nil => exact (Nat.zero_mul places).symm
  | cons a l ih =>
    rw [List.flatMap_cons, List.length_append, ih, hf, List.length_cons, Nat.add_mul, Nat.one_mul,
      Nat.add_comm]

theorem bits_six_inj {n m : Nat} (hn : n < 64) (hm : m < 64) (h : bits 6 n = bits 6 m) : n = m := by
  simp only [bits, List.range, List.range.loop, List.map, Nat.shiftRight_eq_div_pow, List.cons.injEq,
    and_true] at h
  omega

theorem flatMap_bits_inj {ns ms : List Nat} (hn : ∀ n ∈ ns, n < 64) (hm : ∀ m ∈ ms, m < 64)
    (h : ns.flatMap (bits 6) = ms.flatMap (bits 6)) : ns = ms := by
  have hlength := congrArg List.length h
  rw [length_flatMap_bits (length_bits 6), length_flatMap_bits (length_bits 6)] at hlength
  induction ns generalizing ms with
  | nil =>
    rw [List.length_nil, Nat.zero_mul] at hlength
    exact (List.length_eq_zero_iff.1 (by omega)).symm
  | cons n ns ih =>
    cases ms with
    | nil =>
      rw [List.length_nil, List.length_cons] at hlength
      omega
    | cons m ms =>
      rw [List.flatMap_cons, List.flatMap_cons] at h
      obtain ⟨hfirst, hrest⟩ := List.append_inj h (by rw [length_bits, length_bits])
      obtain ⟨hn, hns⟩ := List.forall_mem_cons.1 hn
      obtain ⟨hm, hms⟩ := List.forall_mem_cons.1 hm
      rw [List.length_cons, List.length_cons] at hlength
      rw [bits_six_inj hn hm hfirst, ih hns hms hrest (by omega)]

/-- Bytes are written bit by bit. -/
theorem standsFor_encode (bytes : List UInt8) : StandsFor (encode bytes) bytes := by
  induction bytes using encode.induct with
  | case1 a b c rest ih =>
    have ha := a.toNat_lt
    have hb := b.toNat_lt
    have hc := c.toNat_lt
    obtain ⟨sextets, zeros, hrest, hall, hzeros, hbits⟩ := ih
    refine ⟨a.toNat / 4 :: (a.toNat % 4 * 16 + b.toNat / 16) :: (b.toNat % 16 * 4 + c.toNat / 64) ::
      (c.toNat % 64) :: sextets, zeros, ?_, ?_, hzeros, ?_⟩
    · rw [encode, hrest]
      rfl
    · simp only [List.forall_mem_cons]
      exact ⟨by omega, by omega, by omega, by omega, hall⟩
    · simp only [List.flatMap_cons, hbits]
      simp only [bits, List.range, List.range.loop, List.map, Nat.shiftRight_eq_div_pow,
        List.cons_append, List.nil_append, List.cons.injEq, and_true]
      omega
  | case2 a b =>
    have ha := a.toNat_lt
    have hb := b.toNat_lt
    refine ⟨[a.toNat / 4, a.toNat % 4 * 16 + b.toNat / 16, b.toNat % 16 * 4], 2, rfl, ?_, by decide, ?_⟩
    · simp only [List.forall_mem_cons]
      exact ⟨by omega, by omega, by omega, nofun⟩
    · simp [bits, List.range, List.range.loop, List.replicate, Nat.shiftRight_eq_div_pow]
      omega
  | case3 a =>
    have ha := a.toNat_lt
    refine ⟨[a.toNat / 4, a.toNat % 4 * 16], 4, rfl, ?_, by decide, ?_⟩
    · simp only [List.forall_mem_cons]
      exact ⟨by omega, by omega, nofun⟩
    · simp [bits, List.range, List.range.loop, List.replicate, Nat.shiftRight_eq_div_pow]
      omega
  | case4 => exact ⟨[], 0, rfl, nofun, by decide, rfl⟩

/-- A text stands for bytes if and only if these are what is read from it. -/
theorem decode_eq_some_iff_standsFor {cs : List Char} {bytes : List UInt8} :
    decode cs = some bytes ↔ StandsFor cs bytes := by
  rw [decode_eq_some_iff]
  constructor
  · rintro rfl
    exact standsFor_encode bytes
  · rintro ⟨ns, zeros, rfl, hns, hzeros, hbits⟩
    obtain ⟨ms, zeros', hcs, hms, hzeros', hbits'⟩ := standsFor_encode bytes
    have hlength := congrArg List.length hbits
    have hlength' := congrArg List.length hbits'
    rw [length_flatMap_bits (length_bits 6), List.length_append,
      length_flatMap_bits (fun b : UInt8 => length_bits 8 b.toNat), List.length_replicate]
      at hlength hlength'
    obtain rfl : zeros = zeros' := by omega
    rw [hcs, flatMap_bits_inj hns hms (hbits.trans hbits'.symm)]

end ReadThrough.Base64Url
