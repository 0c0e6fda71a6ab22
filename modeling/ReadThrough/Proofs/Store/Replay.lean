import Mathlib.Data.Finset.Basic
import Mathlib.Data.Finset.Dedup
import Mathlib.Logic.Function.Basic
import ReadThrough.Proofs.Store.Table
/-!
# Changes, their notices, and the keys that they leave

Whoever changes a table is answered (`Table.perform`). A change that finds nothing to change is refused and
leaves everything as it is; any other does to the rows what it would do to a map (`Write.onMap`), and says so
to the observers, one after another. What observers hear is enough to follow the keys: to take a notice of a
change in is to do the change to the set of keys, and to take it in again changes nothing
(`Table.keySet_of_applies`, `Change.replay_replay`).
-/

namespace ReadThrough

variable {ρ ω : Type}

/-! ## Making a change -/

/-- What is done to the row that a change is about. -/
def Write.change : Write ρ → Change
  | .insert _ => .insert
  | .update _ => .update
  | .remove _ => .remove

/-- Whether there is something to change: no row under the key of a new one, and a row to update or to
remove. -/
def Write.applies (e : Entity ρ) (t : Table ρ ω) : Write ρ → Bool
  | .insert row => !(t.get? (e.key row)).isSome
  | .update row => (t.get? (e.key row)).isSome
  | .remove k => (t.get? k).isSome

/-- The answer to a change for which there is nothing to change. -/
def Write.refusal (e : Entity ρ) : Write ρ → Except StoreError (Option ρ)
  | .insert row => .error (.invalidInput (.duplicateKey e.segment (e.key row)))
  | .update _ => .error .notFound
  | .remove _ => .ok none

/-- The row that a change takes away for good. -/
def Write.removed? (t : Table ρ ω) : Write ρ → Option ρ
  | .insert _ | .update _ => none
  | .remove k => t.get? k

/-- A map after a change, if there is something to change. -/
def Write.onMap (e : Entity ρ) (m : Key → Option ρ) : Write ρ → Key → Option ρ
  | .insert row => if (m (e.key row)).isSome then m else Function.update m (e.key row) (some row)
  | .update row => if (m (e.key row)).isSome then Function.update m (e.key row) (some row) else m
  | .remove k => Function.update m k none

/-- Makes a change: what whoever makes it is answered, the table afterwards, and the notices of it. -/
def Table.perform (e : Entity ρ) (t : Table ρ ω) :
    Write ρ → Except StoreError (Option ρ) × Table ρ ω × List (Notice ω)
  | .insert row => match t.insert e row with
    | .ok (t', news) => (.ok none, t', news)
    | .error err => (.error err, t, [])
  | .update row => match t.update e row with
    | .ok (t', news) => (.ok none, t', news)
    | .error err => (.error err, t, [])
  | .remove k =>
    let (removed, t', news) := t.remove e k
    (.ok removed, t', news)

section

variable {e : Entity ρ} {t : Table ρ ω} {w : Write ρ}

/-- A change for which there is nothing to change is refused, and nobody hears of it. -/
theorem Table.perform_of_refused (h : w.applies e t = false) : t.perform e w = (w.refusal e, t, []) := by
  cases w with
  | insert row =>
    have hthere : (t.get? (e.key row)).isSome = true := by simpa [Write.applies] using h
    have hinsert : t.insert e row = .error (.invalidInput (.duplicateKey e.segment (e.key row))) :=
      if_pos hthere
    rw [perform, hinsert]
    rfl
  | update row =>
    have hgone : ¬ (t.get? (e.key row)).isSome = true := by simpa [Write.applies] using h
    have hupdate : t.update e row = .error .notFound := if_neg hgone
    rw [perform, hupdate]
    rfl
  | remove k =>
    have hgone : t.get? k = none := by simpa [Write.applies] using h
    have hremove : t.remove e k = (none, t, []) := by rw [remove, hgone]
    rw [perform, hremove]
    rfl

/-- Any other change is made, and all observers are to hear of it in the order in which they were
attached. -/
theorem Table.perform_of_applies (h : w.applies e t = true) :
    ∃ t', t.write? e w = some (t', t.notices w.change e.segment (w.key e)) ∧
      t.perform e w = (.ok (w.removed? t), t', t.notices w.change e.segment (w.key e)) := by
  cases w with
  | insert row =>
    have hgone : ¬ (t.get? (e.key row)).isSome = true := by simpa [Write.applies] using h
    have hinsert : t.insert e row = .ok _ := if_neg hgone
    rw [write?, perform, hinsert]
    exact ⟨_, rfl, rfl⟩
  | update row =>
    have hupdate : t.update e row = .ok _ := if_pos h
    rw [write?, perform, hupdate]
    exact ⟨_, rfl, rfl⟩
  | remove k =>
    obtain ⟨row, hrow⟩ := Option.isSome_iff_exists.1 h
    have hremove : t.remove e k =
        (some row, { t with rows := t.rows.erase k }, t.notices .remove e.segment k) := by
      rw [remove, hrow]
    rw [write?, perform, hremove, Write.removed?, hrow]
    exact ⟨_, rfl, rfl⟩

theorem Table.exists_of_mem_news (h : w.applies e t = true) {notice : Notice ω}
    (hn : notice ∈ (t.perform e w).2.2) : ∃ observer,
      notice = { observer, change := w.change, segment := e.segment, key := w.key e } := by
  obtain ⟨t', -, hperform⟩ := perform_of_applies h
  rw [hperform] at hn
  obtain ⟨observer, -, rfl⟩ := List.mem_map.1 hn
  exact ⟨observer, rfl⟩

/-- After a change that is made the key has the row of the change, and all others have theirs. -/
theorem Table.get?_of_applies (h : w.applies e t = true) :
    (t.perform e w).2.1.get? = Function.update t.get? (w.key e) w.row? := by
  obtain ⟨t', hwrite, hperform⟩ := perform_of_applies h
  funext k
  rw [hperform, (of_write? hwrite).2, Function.update_apply]

/-- A change does to the rows of a table what it does to a map. -/
theorem Table.get?_perform (e : Entity ρ) (t : Table ρ ω) (w : Write ρ) :
    (t.perform e w).2.1.get? = w.onMap e t.get? := by
  cases h : w.applies e t with
  | false =>
    rw [perform_of_refused h]
    cases w with
    | insert row =>
      have hthere : (t.get? (e.key row)).isSome = true := by simpa [Write.applies] using h
      rw [Write.onMap, if_pos hthere]
    | update row =>
      have hgone : ¬ (t.get? (e.key row)).isSome = true := by simpa [Write.applies] using h
      rw [Write.onMap, if_neg hgone]
    | remove k =>
      have hgone : t.get? k = none := by simpa [Write.applies] using h
      rw [Write.onMap, ← hgone, Function.update_eq_self]
  | true =>
    rw [get?_of_applies h]
    cases w with
    | insert row =>
      have hgone : ¬ (t.get? (e.key row)).isSome = true := by simpa [Write.applies] using h
      rw [Write.onMap, if_neg hgone]
      rfl
    | update row =>
      have hthere : (t.get? (e.key row)).isSome = true := h
      rw [Write.onMap, if_pos hthere]
      rfl
    | remove k => rfl

/-- What is put together from rows is what they say of each key, one after another. -/
theorem Table.get?_ofRows (e : Entity ρ) (rows : List ρ) : (ofRows e rows : Table ρ ω).get? =
    rows.foldl (fun m row => Function.update m (e.key row) (some row)) fun _ => none := by
  have hall : ∀ (rows : List ρ) (d : Dict Key ρ),
      ((rows.map fun r => (e.key r, r)).foldl (fun d p => d.insert p.1 p.2) d).find? =
        rows.foldl (fun m row => Function.update m (e.key row) (some row)) d.find? := by
    intro rows
    induction rows with
    | nil => exact fun d => rfl
    | cons row rows ih =>
      intro d
      have hinsert : (d.insert (e.key row) row).find? = Function.update d.find? (e.key row) (some row) := by
        funext k
        rw [Dict.find?_insert, Function.update_apply]
      rw [List.map_cons, List.foldl_cons, List.foldl_cons, ih, hinsert]
  exact hall rows .empty

theorem Table.WellKeyed.perform (ht : t.WellKeyed e) (w : Write ρ) : (t.perform e w).2.1.WellKeyed e := by
  cases h : w.applies e t with
  | false =>
    rw [perform_of_refused h]
    exact ht
  | true =>
    obtain ⟨t', hwrite, hperform⟩ := perform_of_applies h
    rw [hperform]
    exact ht.of_write? hwrite

theorem Table.observers_perform (e : Entity ρ) (t : Table ρ ω) (w : Write ρ) :
    (t.perform e w).2.1.observers = t.observers := by
  cases h : w.applies e t with
  | false => rw [perform_of_refused h]
  | true =>
    obtain ⟨t', hwrite, hperform⟩ := perform_of_applies h
    rw [hperform]
    exact observers_of_write? hwrite

end

/-! ## Following the keys -/

/-- The keys that have rows. -/
def Table.keySet (t : Table ρ ω) : Finset Key := t.rows.keys.toFinset

@[simp] theorem Table.mem_keySet {t : Table ρ ω} {k : Key} : k ∈ t.keySet ↔ (t.get? k).isSome = true := by
  rw [keySet, List.mem_toFinset, Dict.mem_keys]
  rfl

theorem Table.keySet_ofRows (e : Entity ρ) (rows : List ρ) :
    (ofRows e rows : Table ρ ω).keySet = (rows.map e.key).toFinset := by
  have hall : ∀ (rows : List ρ) (m : Key → Option ρ) (k : Key),
      (rows.foldl (fun m row => Function.update m (e.key row) (some row)) m k).isSome = true ↔
        k ∈ rows.map e.key ∨ (m k).isSome = true := by
    intro rows
    induction rows with
    | nil => simp
    | cons row rows ih =>
      intro m k
      rw [List.foldl_cons, ih, Function.update_apply, List.map_cons, List.mem_cons]
      split <;> simp_all
  ext k
  rw [mem_keySet, get?_ofRows, hall, List.mem_toFinset]
  simp

/-- A set of keys after a change to the row under a key. -/
def Change.replay (k : Key) (keys : Finset Key) : Change → Finset Key
  | .insert => Insert.insert k keys
  | .update => keys
  | .remove => keys.erase k

/-- A set of keys after all that somebody has heard of. -/
def replay (keys : Finset Key) (log : List (Notice ω)) : Finset Key :=
  log.foldl (fun keys notice => notice.change.replay notice.key keys) keys

theorem replay_append (keys : Finset Key) (log log' : List (Notice ω)) :
    replay keys (log ++ log') = replay (replay keys log) log' := List.foldl_append

/-- To hear of a change again changes nothing. -/
theorem Change.replay_replay (c : Change) (k : Key) (keys : Finset Key) :
    c.replay k (c.replay k keys) = c.replay k keys := by
  cases c with
  | insert => exact Finset.insert_eq_of_mem (Finset.mem_insert_self k keys)
  | update => rfl
  | remove => exact Finset.erase_eq_of_notMem (Finset.notMem_erase k keys)

/-- To hear of one change, however often, is to hear of it once. -/
theorem replay_eq_of_forall {c : Change} {k : Key} {log : List (Notice ω)} (hne : log ≠ [])
    (hall : ∀ notice ∈ log, notice.change = c ∧ notice.key = k) (keys : Finset Key) :
    replay keys log = c.replay k keys := by
  induction log generalizing keys with
  | nil => exact absurd rfl hne
  | cons notice log ih =>
    obtain ⟨⟨hc, hk⟩, hrest⟩ := List.forall_mem_cons.1 hall
    have hhead : replay keys (notice :: log) = replay (c.replay k keys) log := by
      rw [← hc, ← hk]
      rfl
    rw [hhead]
    cases log with
    | nil => rfl
    | cons notice' log =>
      rw [ih (List.cons_ne_nil _ _) hrest, Change.replay_replay]

/-- To hear of what has been done already changes nothing. -/
theorem replay_of_done {keys : Finset Key} {log : List (Notice ω)}
    (h : ∀ notice ∈ log, notice.change.replay notice.key keys = keys) : replay keys log = keys := by
  induction log with
  | nil => rfl
  | cons notice log ih =>
    obtain ⟨hhead, hrest⟩ := List.forall_mem_cons.1 h
    calc replay keys (notice :: log)
      _ = replay (notice.change.replay notice.key keys) log := rfl
      _ = keys := by rw [hhead, ih hrest]

/-- The keys after a change are those before it, with the change done to them. -/
theorem Table.keySet_of_applies {e : Entity ρ} {t : Table ρ ω} {w : Write ρ}
    (h : w.applies e t = true) :
    (t.perform e w).2.1.keySet = w.change.replay (w.key e) t.keySet := by
  ext k
  rw [mem_keySet, get?_of_applies h, Function.update_apply]
  cases w with
  | insert row =>
    show (if k = e.key row then some row else t.get? k).isSome = true ↔
      k ∈ Insert.insert (e.key row) t.keySet
    rw [Finset.mem_insert, mem_keySet]
    split <;> simp_all
  | update row =>
    -- The key of a row to update is there before.
    show (if k = e.key row then some row else t.get? k).isSome = true ↔ k ∈ t.keySet
    have hthere : (t.get? (e.key row)).isSome = true := h
    rw [mem_keySet]
    split <;> simp_all
  | remove k' =>
    show (if k = k' then none else t.get? k).isSome = true ↔ k ∈ t.keySet.erase k'
    rw [Finset.mem_erase, mem_keySet]
    split <;> simp_all

/-- What one observer hears of a change leaves the keys that the table has after it. -/
theorem Table.replay_news [DecidableEq ω] (e : Entity ρ) {t : Table ρ ω} (w : Write ρ) {observer : ω}
    (h : observer ∈ t.observers) :
    replay t.keySet ((t.perform e w).2.2.filter (·.observer = observer)) =
      (t.perform e w).2.1.keySet := by
  cases happlies : w.applies e t with
  | false =>
    rw [perform_of_refused happlies]
    rfl
  | true =>
    rw [keySet_of_applies happlies]
    refine replay_eq_of_forall ?_ (fun notice hn => ?_) t.keySet
    · obtain ⟨t', -, hperform⟩ := perform_of_applies happlies
      rw [hperform]
      refine List.ne_nil_of_mem (List.mem_filter.2 ⟨List.mem_map_of_mem h, ?_⟩)
      exact decide_eq_true rfl
    · obtain ⟨_, rfl⟩ := exists_of_mem_news happlies (List.mem_of_mem_filter hn)
      exact ⟨rfl, rfl⟩

end ReadThrough
