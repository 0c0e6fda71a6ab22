import ReadThrough.Dict
/-!
# Dictionaries as lists

What is found in a dictionary is one of its entries, and every entry is found. The entries, in any order,
are those of the dictionary without a key, and that of the key.
-/

namespace ReadThrough

/-- A list whose members have different keys is any one of them, and those with other keys. -/
theorem perm_cons_filter {α β : Type} [DecidableEq β] (key : α → β) {l : List α} {a : α}
    (hl : (l.map key).Nodup) (ha : a ∈ l) : l.Perm (a :: l.filter fun x => key x ≠ key a) := by
  induction l with
  | nil => cases ha
  | cons x l ih =>
    obtain ⟨hx, hl⟩ := List.nodup_cons.1 hl
    rcases List.mem_cons.1 ha with rfl | ha
    · have hrest : (l.filter fun x => key x ≠ key a) = l := by
        refine List.filter_eq_self.2 fun y hy => decide_eq_true ?_
        intro he
        exact hx (he ▸ List.mem_map_of_mem hy)
      rw [List.filter_cons_of_neg (by simp), hrest]
    · have hne : key x ≠ key a := by
        intro he
        exact hx (he ▸ List.mem_map_of_mem ha)
      rw [List.filter_cons_of_pos (by simpa using hne)]
      exact ((ih hl ha).cons x).trans (.swap a x _)

namespace Dict

variable {κ ν : Type} [DecidableEq κ]

theorem mem_of_find? {d : Dict κ ν} {k : κ} {v : ν} (h : d.find? k = some v) : (k, v) ∈ d.entries := by
  obtain ⟨⟨k', v'⟩, he, rfl⟩ := Option.map_eq_some_iff.1 h
  obtain rfl : k' = k := by simpa using List.find?_some he
  exact List.mem_of_find?_eq_some he

theorem find?_of_mem {d : Dict κ ν} {k : κ} {v : ν} (h : (k, v) ∈ d.entries) : d.find? k = some v := by
  obtain ⟨l, hl⟩ := d
  simp only [find?] at h ⊢
  induction l with
  | nil => cases h
  | cons e l ih =>
    obtain ⟨hn, hl⟩ := List.nodup_cons.1 hl
    rcases List.mem_cons.1 h with rfl | h
    · simp
    · have hne : ¬ e.1 = k := by
        rintro rfl
        exact hn (List.mem_map.2 ⟨(e.1, v), h, rfl⟩)
      rw [List.find?_cons_of_neg (by simpa using hne)]
      exact ih hl h

theorem mem_keys {d : Dict κ ν} {k : κ} : k ∈ d.keys ↔ (d.find? k).isSome = true := by
  rw [Option.isSome_iff_exists]
  constructor
  · intro h
    obtain ⟨⟨k', v⟩, he, rfl⟩ := List.mem_map.1 h
    exact ⟨v, find?_of_mem he⟩
  · rintro ⟨v, h⟩
    exact List.mem_map_of_mem (mem_of_find? h)

/-- What is stored is stored under a key. -/
theorem exists_find?_of_mem_values {d : Dict κ ν} {v : ν} (h : v ∈ d.values) :
    ∃ k, d.find? k = some v := by
  obtain ⟨⟨k, v⟩, he, rfl⟩ := List.mem_map.1 h
  exact ⟨k, find?_of_mem he⟩

theorem entries_insert {d : Dict κ ν} {k : κ} (h : d.find? k = none) (v : ν) :
    (d.insert k v).entries = d.entries ++ [(k, v)] := by
  have hsame : (d.erase k).entries = d.entries := by
    refine List.filter_eq_self.2 fun e he => decide_eq_true ?_
    rintro rfl
    rw [find?_of_mem he] at h
    cases h
  show (d.erase k).entries ++ [(k, v)] = _
  rw [hsame]

theorem entries_erase {d : Dict κ ν} {k : κ} {v : ν} (h : d.find? k = some v) :
    d.entries.Perm ((k, v) :: (d.erase k).entries) :=
  perm_cons_filter Prod.fst d.distinct (mem_of_find? h)

theorem modify_modify (d : Dict κ ν) (k : κ) (f f' : ν → ν) :
    (d.modify k f).modify k f' = d.modify k (f' ∘ f) := by
  simp only [modify, map, List.map_map]
  congr 2
  funext e
  show (e.1, if e.1 = k then f' (if e.1 = k then f e.2 else e.2) else if e.1 = k then f e.2 else e.2) = _
  split <;> rfl

end Dict

end ReadThrough
