/-!
# Dictionaries

A finite map as a list of pairs with distinct keys. The view of a dictionary is `find?`; every
operation is described by what it does to that view, and `size` counts the keys.
-/

namespace ReadThrough

/-- Pairs of a key and what is stored under it, at most one pair for each key. -/
structure Dict (κ : Type u) (ν : Type v) where
  entries : List (κ × ν)
  distinct : (entries.map Prod.fst).Nodup

namespace Dict

variable {κ : Type u} {ν : Type v}

/-- The dictionary without entries. -/
def empty : Dict κ ν := ⟨[], List.nodup_nil⟩

instance : Inhabited (Dict κ ν) := ⟨empty⟩

/-- The number of entries. -/
def size (d : Dict κ ν) : Nat := d.entries.length

/-- The keys, oldest entry first. -/
def keys (d : Dict κ ν) : List κ := d.entries.map Prod.fst

/-- What is stored, oldest entry first. -/
def values (d : Dict κ ν) : List ν := d.entries.map Prod.snd

/-- The entries that pass a test. -/
def filter (p : κ → ν → Bool) (d : Dict κ ν) : Dict κ ν where
  entries := d.entries.filter fun e => p e.1 e.2
  distinct := d.distinct.sublist (List.filter_sublist.map Prod.fst)

/-- The same keys with new contents. -/
def map (f : κ → ν → ω) (d : Dict κ ν) : Dict κ ω where
  entries := d.entries.map fun e => (e.1, f e.1 e.2)
  distinct := by simpa [List.map_map, Function.comp_def] using d.distinct

variable [DecidableEq κ]

/-- What is stored under a key. -/
def find? (d : Dict κ ν) (k : κ) : Option ν :=
  (d.entries.find? fun e => e.1 = k).map Prod.snd

/-- Whether something is stored under a key. -/
def contains (d : Dict κ ν) (k : κ) : Bool := (d.find? k).isSome

/-- The dictionary without a key. -/
def erase (d : Dict κ ν) (k : κ) : Dict κ ν := d.filter fun k' _ => k' ≠ k

/-- The dictionary with something stored under a key, in place of what was there. -/
def insert (d : Dict κ ν) (k : κ) (v : ν) : Dict κ ν where
  entries := (d.erase k).entries ++ [(k, v)]
  distinct := by
    rw [List.map_append, List.nodup_append]
    refine ⟨(d.erase k).distinct, by simp, ?_⟩
    intro a ha b hb
    simp only [erase, filter, List.mem_map, List.mem_filter, decide_eq_true_eq, ne_eq] at ha
    obtain ⟨e, ⟨-, hne⟩, rfl⟩ := ha
    simp only [List.map_cons, List.map_nil, List.mem_singleton] at hb
    exact hb ▸ hne

/-- A dictionary from pairs; of two pairs with one key the later stays. -/
def ofList (l : List (κ × ν)) : Dict κ ν := l.foldl (fun d (e : κ × ν) => d.insert e.1 e.2) empty

/-- Changes what is stored under a key, if anything is. -/
def modify (d : Dict κ ν) (k : κ) (f : ν → ν) : Dict κ ν :=
  d.map fun k' v => if k' = k then f v else v

/-! ## The view after each operation -/

@[simp] theorem find?_empty (k : κ) : (empty : Dict κ ν).find? k = none := rfl

theorem find?_filter (d : Dict κ ν) (p : κ → ν → Bool) (k : κ) :
    (d.filter p).find? k = (d.find? k).filter (p k) := by
  obtain ⟨l, h⟩ := d
  simp only [find?, filter]
  induction l with
  | nil => rfl
  | cons e l ih =>
    obtain ⟨hn, hl⟩ := List.nodup_cons.1 h
    have ih := ih hl
    by_cases hk : e.1 = k
    · have gone : (l.find? fun e' => e'.1 = k) = none := by
        simp only [List.find?_eq_none, decide_eq_true_eq]
        rintro e' he' rfl
        exact hn (hk ▸ List.mem_map_of_mem he')
      rw [gone] at ih
      by_cases hp : p k e.2
      · simp [hk, hp, Option.filter]
      · simp only [hk, hp, List.filter_cons, List.find?_cons, decide_true, Option.map_some,
          Option.filter, Bool.false_eq_true, if_false]
        simpa [Option.filter] using ih
    · by_cases hp : p e.1 e.2
      · simpa only [hk, hp, List.filter_cons, List.find?_cons, decide_false, if_true] using ih
      · simpa only [hk, hp, List.filter_cons, List.find?_cons, decide_false, Bool.false_eq_true,
          if_false] using ih

@[simp] theorem find?_erase (d : Dict κ ν) (k k' : κ) :
    (d.erase k).find? k' = if k' = k then none else d.find? k' := by
  rw [erase, find?_filter]
  split <;> cases d.find? k' <;> simp_all [Option.filter]

@[simp] theorem find?_insert (d : Dict κ ν) (k k' : κ) (v : ν) :
    (d.insert k v).find? k' = if k' = k then some v else d.find? k' := by
  have h := find?_erase d k k'
  simp only [find?, insert, List.find?_append] at h ⊢
  by_cases hk : k' = k
  · subst hk
    simp only [if_true, Option.map_eq_none_iff] at h
    simp [h]
  · have hk' : ¬ k = k' := fun e => hk e.symm
    simp only [hk, if_false] at h
    simp [hk, hk', h]

/-- Changing all contents changes what is found. -/
@[simp] theorem find?_map {ω : Type w} (d : Dict κ ν) (f : κ → ν → ω) (k : κ) :
    (d.map f).find? k = (d.find? k).map (f k) := by
  obtain ⟨l, h⟩ := d
  simp only [find?, map]
  clear h
  induction l with
  | nil => rfl
  | cons e l ih =>
    by_cases hk : e.1 = k
    · subst hk
      simp
    · simpa [List.find?_cons, hk] using ih

/-- Changing what is under one key leaves the others alone. -/
theorem find?_modify (d : Dict κ ν) (k k' : κ) (f : ν → ν) :
    (d.modify k f).find? k' = if k' = k then (d.find? k').map f else d.find? k' := by
  rw [modify, find?_map]
  split <;> simp_all

omit [DecidableEq κ] in
theorem size_filter_le (d : Dict κ ν) (p : κ → ν → Bool) : (d.filter p).size ≤ d.size :=
  List.length_filter_le _ _

end Dict

end ReadThrough
