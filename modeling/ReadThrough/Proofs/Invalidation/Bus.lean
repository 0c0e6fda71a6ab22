import ReadThrough.Invalidation.Coordinator
import ReadThrough.Proofs.Cache.History
/-!
# What is heard on the bus

Every payload that is published has a position, and stays there until it makes room (`Bus.at?_publish`).
A subscriber hears what is at its position, or that it has missed something; hearing all that is left
is hearing one thing after another (`Bus.rest_eq`). What a listening process does with what it hears is
one operation on its cache, or none (`Cache.hear_snd`).
-/

namespace ReadThrough

namespace Bus

variable (b : Bus) (payload : String) {position : Nat}

/-- The payload at a position, while it is kept. -/
def at? (b : Bus) (position : Nat) : Option String :=
  if position < b.oldest then none else b.kept[position - b.oldest]?

/-- No more is kept than was published. -/
def Sound (b : Bus) : Prop := b.kept.length ≤ b.published

variable {b}

theorem Sound.publish (h : b.Sound) : (b.publish payload).Sound := by
  have h : b.kept.length ≤ b.published := h
  show (List.drop _ _).length ≤ b.published + 1
  rw [List.length_drop, List.length_append, List.length_singleton]
  omega

/-- Payloads make room in the order in which they were published. -/
theorem Sound.oldest_publish (h : b.Sound) :
    (b.publish payload).oldest = b.oldest + (b.kept.length + 1 - b.capacity) := by
  have h : b.kept.length ≤ b.published := h
  show b.published + 1 - (List.drop _ _).length = _
  rw [List.length_drop, List.length_append, List.length_singleton, oldest]
  omega

theorem Sound.at?_of_le (h : b.Sound) (hp : b.published ≤ position) : b.at? position = none := by
  have h : b.kept.length ≤ b.published := h
  have ho : b.oldest + b.kept.length = b.published := by
    rw [oldest]
    omega
  rw [at?, if_neg (by omega), List.getElem?_eq_none]
  omega

/-- A payload that is published stands at the position that was next; the others stay where they are, as
far as they are kept. -/
theorem Sound.at?_publish (h : b.Sound) :
    (b.publish payload).at? position =
      if position < (b.publish payload).oldest then none
      else if position = b.published then some payload
      else b.at? position := by
  have hkept : b.kept.length ≤ b.published := h
  have ho : b.oldest + b.kept.length = b.published := by
    rw [oldest]
    omega
  have hold := h.oldest_publish payload
  rw [at?]
  split
  · rfl
  · rename_i hpos
    rw [hold] at hpos ⊢
    -- What makes room at the front moves the others forward by as much as the oldest position grows.
    have hindex : b.kept.length + 1 - b.capacity +
        (position - (b.oldest + (b.kept.length + 1 - b.capacity))) = position - b.oldest := by omega
    have hget : (b.publish payload).kept[position -
        (b.oldest + (b.kept.length + 1 - b.capacity))]? = (b.kept ++ [payload])[position - b.oldest]? := by
      show (List.drop _ _)[_]? = _
      rw [List.getElem?_drop, List.length_append, List.length_singleton, hindex]
    rw [hget]
    split
    · rename_i hp
      rw [List.getElem?_append_right (by omega), show position - b.oldest - b.kept.length = 0 by omega]
      rfl
    · rename_i hp
      rw [at?, if_neg (by omega)]
      by_cases hlt : position - b.oldest < b.kept.length
      · rw [List.getElem?_append_left hlt]
      · have hfar : (b.kept ++ [payload])[position - b.oldest]? = none := by
          refine List.getElem?_eq_none ?_
          rw [List.length_append, List.length_singleton]
          omega
        rw [hfar, List.getElem?_eq_none (by omega)]

/-- What a subscriber hears next: the payload at its position, or that payloads have made room. -/
theorem receive_eq : b.receive position =
    if position < b.oldest then
      some (.error (.lagged (.ofNat (b.oldest - position))), b.oldest)
    else (b.at? position).map fun payload => (.ok payload, position + 1) := by
  rw [receive]
  split
  · rfl
  · rename_i h
    rw [at?, if_neg h]

/-- Who hears something goes on. -/
theorem lt_of_receive {item : Except BusError String} {next : Nat}
    (hr : b.receive position = some (item, next)) : position < next := by
  rw [receive_eq] at hr
  split at hr
  · cases hr
    assumption
  · obtain ⟨payload, -, hpair⟩ := Option.map_eq_some_iff.1 hr
    cases hpair
    exact Nat.lt_succ_self _

/-- Nobody hears more than has been published. -/
theorem Sound.receive_le {item : Except BusError String} {next : Nat} (h : b.Sound)
    (hr : b.receive position = some (item, next)) : next ≤ b.published := by
  rw [receive_eq] at hr
  split at hr
  · cases hr
    exact Nat.sub_le _ _
  · obtain ⟨payload, hp, hpair⟩ := Option.map_eq_some_iff.1 hr
    cases hpair
    by_contra hlt
    rw [h.at?_of_le (by omega)] at hp
    cases hp

/-- All that a subscriber still hears is what it hears next, and then the rest. -/
theorem rest_eq : b.rest position = match b.receive position with
    | some (item, position) => item :: b.rest position
    | none => [] := by
  rw [rest, receive]
  split
  · show _ :: _ = _ :: b.rest b.oldest
    rw [rest, if_neg (Nat.lt_irrefl _), Nat.sub_self, List.drop_zero]
  · rename_i h
    cases hp : b.kept[position - b.oldest]? with
    | none =>
      rw [List.drop_eq_nil_of_le (List.getElem?_eq_none_iff.1 hp)]
      rfl
    | some payload =>
      obtain ⟨hlt, hget⟩ := List.getElem?_eq_some_iff.1 hp
      show _ = _ :: b.rest (position + 1)
      rw [rest, if_neg (by omega), List.drop_eq_getElem_cons hlt, hget,
        show position + 1 - b.oldest = position - b.oldest + 1 by omega]
      rfl

end Bus

namespace Cache

variable {ν : Type}

/-- What hearing something does to the cache of a process. -/
def heard? (self : Uuid) : Except BusError String → Option (Op ν)
  | .ok payload => match Message.decode? payload with
    | some m =>
      if m.origin = some self then none
      else some (m.key.elim (.clearSegment m.segment) (.delete m.segment))
    | none => none
  | .error e => if e.mayHaveMissed then some .clearAll else none

theorem hear_snd (c : Cache ν) (self : Uuid) (now : Nat) (item : Except BusError String) :
    (c.hear self item).2 = (heard? self item).elim c fun op => op.apply now c := by
  cases item with
  | error e =>
    simp only [hear, heard?]
    split <;> rfl
  | ok payload =>
    simp only [hear, applyRemote, heard?]
    cases Message.decode? payload with
    | none => rfl
    | some m =>
      simp only
      split
      · rfl
      · cases hk : m.key <;> rfl

end Cache

end ReadThrough
