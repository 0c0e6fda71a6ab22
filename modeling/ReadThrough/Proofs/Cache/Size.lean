import Mathlib.Data.Set.Card
import ReadThrough.Cache.View
import ReadThrough.Proofs.Dict
/-!
# How many entries a cache has

A cache has one entry for each place, a segment with a key, under which something is found
(`Cache.size_eq_ncard`). Purging takes away what it says it takes away (`Cache.size_purge`).
-/

namespace ReadThrough.Cache

variable {ν : Type} (c : Cache ν)

/-- The places under which there is an entry, segment by segment. -/
def places : List (String × Key) := c.slots.entries.flatMap fun x => x.2.entries.keys.map (x.1, ·)

theorem length_places : c.places.length = c.size := by
  simp only [places, size, Dict.values]
  induction c.slots.entries with
  | nil => rfl
  | cons x slots ih =>
    rw [List.flatMap_cons, List.length_append, ih, List.length_map, List.map_cons, List.foldr_cons]
    congr 1
    exact List.length_map _

theorem mem_places {s : String} {k : Key} : (s, k) ∈ c.places ↔ (c.find? s k).isSome = true := by
  have hmem : (s, k) ∈ c.places ↔ ∃ x, (s, x) ∈ c.slots.entries ∧ k ∈ x.entries.keys := by
    simp only [places, List.mem_flatMap, List.mem_map, Prod.mk.injEq, Prod.exists]
    constructor
    · rintro ⟨s', x, hx, k', hk, rfl, rfl⟩
      exact ⟨x, hx, hk⟩
    · rintro ⟨x, hx, hk⟩
      exact ⟨s, x, hx, k, hk, rfl, rfl⟩
  rw [hmem, find?, slot]
  constructor
  · rintro ⟨x, hx, hk⟩
    rw [Dict.find?_of_mem hx]
    exact Dict.mem_keys.1 hk
  · intro h
    cases hx : c.slots.find? s with
    | none =>
      rw [hx] at h
      cases h
    | some x =>
      rw [hx] at h
      exact ⟨x, Dict.mem_of_find? hx, Dict.mem_keys.2 h⟩

theorem nodup_places : c.places.Nodup := by
  rw [places, List.nodup_flatMap]
  constructor
  · intro x _
    exact x.2.entries.distinct.map fun _ _ h => (Prod.mk.inj h).2
  · -- The places of two segments differ in the segment.
    refine (List.pairwise_map.1 c.slots.distinct).imp fun {x y} hne => ?_
    intro p hx hy
    obtain ⟨k, -, rfl⟩ := List.mem_map.1 hx
    obtain ⟨k', -, h⟩ := List.mem_map.1 hy
    exact hne (Prod.mk.inj h).1.symm

/-- There is one entry for each place under which something is found. -/
theorem size_eq_ncard : c.size = {p : String × Key | (c.find? p.1 p.2).isSome = true}.ncard := by
  have hset : {p : String × Key | (c.find? p.1 p.2).isSome = true} = ↑c.places.toFinset := by
    ext ⟨s, k⟩
    rw [Finset.mem_coe, List.mem_toFinset, mem_places]
    rfl
  rw [hset, Set.ncard_coe_finset, List.toFinset_card_of_nodup c.nodup_places, length_places]

/-- Purging makes a cache smaller by the number of entries that it takes away. -/
theorem size_purge (now : Nat) : (c.purge now).size + c.purgeCount now = c.size := by
  simp only [size, purge, purgeCount, Dict.values, Dict.map]
  induction c.slots.entries with
  | nil => rfl
  | cons x slots ih =>
    have hle := x.2.entries.size_filter_le fun _ e => !e.expired now
    simp only [List.map_cons, List.foldr_cons]
    omega

end ReadThrough.Cache
