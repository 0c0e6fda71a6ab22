import ReadThrough.Cache.Basic
/-!
# What the operations of a cache do

The two views of a cache are its entries, expired or not, and the epochs of its segments. Storing and
reading leave every epoch as it is. Invalidation moves the epoch of its segment, or all epochs, and
takes away what it says and nothing else.
-/

namespace ReadThrough

namespace Cache

variable {ν α : Type} (c : Cache ν) (now : Nat) (s s' : String) (k k' : Key)

@[simp] theorem slot_setSlot (x : Slot ν) :
    (c.setSlot s x).slot s' = if s' = s then x else c.slot s' := by
  simp only [slot, setSlot, Dict.find?_insert]
  split <;> rfl

@[simp] theorem generation_setSlot (x : Slot ν) : (c.setSlot s x).generation = c.generation := rfl

/-! ## Entries -/

theorem find?_set (v : ν) :
    (c.set now s k v).find? s' k' =
      if s' = s ∧ k' = k then some { value := v, expires := now + c.ttl.toNat }
      else c.find? s' k' := by
  simp only [find?, set, slot_setSlot]
  by_cases hs : s' = s
  · subst hs
    simp
  · simp [hs]

theorem find?_delete :
    (c.delete s k).2.find? s' k' = if s' = s ∧ k' = k then none else c.find? s' k' := by
  simp only [find?, delete, slot_setSlot]
  by_cases hs : s' = s
  · subst hs
    simp
  · simp [hs]

theorem find?_clearSegment :
    (c.clearSegment s).find? s' k' = if s' = s then none else c.find? s' k' := by
  simp only [find?, clearSegment, slot_setSlot]
  split <;> simp_all

theorem find?_clearAll : c.clearAll.find? s k = none := by
  simp only [find?, clearAll, slot, Dict.find?_map]
  cases c.slots.find? s <;> rfl

theorem find?_purge :
    (c.purge now).find? s k = (c.find? s k).filter fun e => !e.expired now := by
  simp only [find?, purge, slot, Dict.find?_map]
  cases c.slots.find? s with
  | none => rfl
  | some x => simp [Dict.find?_filter]

/-- Reading takes an expired entry away and leaves the others alone. -/
theorem find?_get (read : ν → Option α) :
    (c.get now s k read).2.find? s' k' =
      if s' = s ∧ k' = k then (c.find? s' k').filter fun e => !e.expired now
      else c.find? s' k' := by
  unfold get
  split
  · rename_i h
    split
    · rename_i hk
      rw [hk.1, hk.2, h]
      rfl
    · rfl
  · rename_i e h
    split
    · rename_i he
      simp only [find?, slot_setSlot] at h ⊢
      by_cases hs : s' = s
      · subst hs
        by_cases hk : k' = k
        · subst hk
          simp [h, he, Option.filter]
        · simp [hk]
      · simp [hs]
    · rename_i he
      split
      · rename_i hk
        rw [hk.1, hk.2, h]
        simp [he, Option.filter]
      · rfl

/-! ## Epochs -/

@[simp] theorem epoch_set (v : ν) : (c.set now s k v).epoch s' = c.epoch s' := by
  simp only [epoch, set, slot_setSlot, generation_setSlot]
  split <;> simp_all

@[simp] theorem epoch_get (read : ν → Option α) : (c.get now s k read).2.epoch s' = c.epoch s' := by
  unfold get
  split
  · rfl
  · split
    · simp only [epoch, slot_setSlot, generation_setSlot]
      split <;> simp_all
    · rfl

@[simp] theorem epoch_purge : (c.purge now).epoch s = c.epoch s := by
  simp only [epoch, purge, slot, Dict.find?_map]
  cases c.slots.find? s <;> rfl

theorem epoch_delete :
    (c.delete s k).2.epoch s' =
      if s' = s then { c.epoch s' with segment := (c.epoch s').segment + 1 } else c.epoch s' := by
  simp only [epoch, delete, slot_setSlot, generation_setSlot]
  split <;> simp_all

theorem epoch_clearSegment :
    (c.clearSegment s).epoch s' =
      if s' = s then { c.epoch s' with segment := (c.epoch s').segment + 1 } else c.epoch s' := by
  simp only [epoch, clearSegment, slot_setSlot, generation_setSlot]
  split <;> simp_all

theorem epoch_clearAll :
    c.clearAll.epoch s = { c.epoch s with generation := (c.epoch s).generation + 1 } := by
  simp only [epoch, clearAll, slot, Dict.find?_map]
  cases c.slots.find? s <;> rfl

end Cache

end ReadThrough
