import ReadThrough.Newsroom
import ReadThrough.Proofs.Run
import ReadThrough.Proofs.Store.Replay
/-!
# Every change is announced, and no other

Changes are made to a table one after another, and observers are attached to it at any time. After a change
its notices are heard one by one, and the next change waits until all are (`Ledger`). Whatever the order of
all this, the table has the rows that a map would have. Each change that is made is heard of by those who
are observers when it is made, once each and in the order in which they were attached, and when they hear of
it the table shows it; what is refused nobody hears of (`announcesAll`). Whoever is an observer knows from
what he hears which keys have rows.
-/

namespace ReadThrough

/-- A table, and the notices of the last change that are still to be heard. -/
structure Ledger (ρ ω : Type) where
  table : Table ρ ω
  untold : List (Notice ω) := []

namespace Ledger

variable {ρ ω : Type}

/-- What happens at a table. -/
inductive Event (ρ ω : Type) where
  | write (w : Write ρ)
  | attach (observer : ω)
  /-- The next notice is heard. -/
  | tell
  | idle

/-- The ledger after an event, if the event is possible. -/
def step (e : Entity ρ) (s : Ledger ρ ω) : Event ρ ω → Option (Ledger ρ ω)
  | .write w => match s.untold with
    | [] =>
      let (_, table, untold) := s.table.perform e w
      some { table, untold }
    | _ :: _ => none
  | .attach observer => some { s with table := s.table.attach observer }
  | .tell => match s.untold with
    | [] => none
    | _ :: untold => some { s with untold }
  | .idle => some s

/-- What an event does. -/
theorem step_cases {e : Entity ρ} {s s' : Ledger ρ ω} {ev : Event ρ ω} (h : step e s ev = some s') :
    (∃ w, ev = .write w ∧ s.untold = [] ∧
      s' = { table := (s.table.perform e w).2.1, untold := (s.table.perform e w).2.2 }) ∨
    (∃ observer, ev = .attach observer ∧ s' = { s with table := s.table.attach observer }) ∨
    (∃ notice untold, ev = .tell ∧ s.untold = notice :: untold ∧ s' = { s with untold }) ∨
    (ev = .idle ∧ s' = s) := by
  obtain ⟨t, news⟩ := s
  cases ev with
  | write w =>
    cases news with
    | nil =>
      cases h
      exact .inl ⟨w, rfl, rfl, rfl⟩
    | cons notice news => cases h
  | attach observer =>
    cases h
    exact .inr (.inl ⟨observer, rfl, rfl⟩)
  | tell =>
    cases news with
    | nil => cases h
    | cons notice news =>
      cases h
      exact .inr (.inr (.inl ⟨notice, news, rfl, rfl, rfl⟩))
  | idle =>
    cases h
    exact .inr (.inr (.inr ⟨rfl, rfl⟩))

/-- Every row stands under its own key, and what is still to be heard of has been done to the keys. -/
structure Sound (e : Entity ρ) (s : Ledger ρ ω) : Prop where
  keyed : s.table.WellKeyed e
  done : ∀ notice ∈ s.untold, notice.change.replay notice.key s.table.keySet = s.table.keySet

theorem Sound.step {e : Entity ρ} {s s' : Ledger ρ ω} {ev : Event ρ ω} (hs : s.Sound e)
    (h : step e s ev = some s') : s'.Sound e := by
  obtain ⟨w, -, -, rfl⟩ | ⟨observer, -, rfl⟩ | ⟨notice, untold, -, huntold, rfl⟩ | ⟨-, rfl⟩ := step_cases h
  · refine ⟨hs.keyed.perform w, ?_⟩
    cases happlies : w.applies e s.table with
    | false =>
      rw [Table.perform_of_refused happlies]
      exact fun _ hn => absurd hn List.not_mem_nil
    | true =>
      intro notice hn
      obtain ⟨observer, rfl⟩ := Table.exists_of_mem_news happlies hn
      rw [Table.keySet_of_applies happlies]
      exact Change.replay_replay _ _ _
  · exact ⟨hs.keyed, hs.done⟩
  · exact ⟨hs.keyed, fun n hn => hs.done n (huntold ▸ List.mem_cons_of_mem _ hn)⟩
  · exact hs

/-- A run of a table that has some rows at first, and no observers. -/
abbrev Run (ω : Type) (e : Entity ρ) (rows : List ρ) :=
  ReadThrough.Run (@step ρ ω e) { table := .ofRows e rows }

namespace Run

variable {e : Entity ρ} {rows : List ρ} (R : Run ω e rows)

/-- What whoever makes a change at a step is answered. -/
def answer? (n : Nat) : Option (Except StoreError (Option ρ)) := match R.event n with
  | .write w => some ((R.state n).table.perform e w).1
  | _ => none

/-- The notices of the change that is made at a step. -/
def newsAt (n : Nat) : List (Notice ω) := match R.event n with
  | .write w => ((R.state n).table.perform e w).2.2
  | _ => []

/-- What is heard at a step. -/
def heardAt (n : Nat) : List (Notice ω) := match R.event n with
  | .tell => (R.state n).untold.take 1
  | _ => []

/-- The notices of the changes that are made from a step on, in so many steps. -/
def announced (a : Nat) : Nat → List (Notice ω)
  | 0 => []
  | n + 1 => announced a n ++ R.newsAt (a + n)

/-- What is heard from a step on, in so many steps. -/
def heard (a : Nat) : Nat → List (Notice ω)
  | 0 => []
  | n + 1 => heard a n ++ R.heardAt (a + n)

/-- Who has been attached before a step, in the order in which it was done. -/
def attached : Nat → List ω
  | 0 => []
  | n + 1 => attached n ++ match R.event n with
    | .attach observer => [observer]
    | _ => []

/-- A map to which is done what is done to the table. -/
def reference : Nat → Key → Option ρ
  | 0 => rows.foldl (fun m row => Function.update m (e.key row) (some row)) fun _ => none
  | n + 1 => match R.event n with
    | .write w => w.onMap e (reference n)
    | _ => reference n

/-! ## One step -/

theorem answer?_of_write {n : Nat} {w : Write ρ} (h : R.event n = .write w) :
    R.answer? n = some ((R.state n).table.perform e w).1 := by rw [answer?, h]

theorem newsAt_of_write {n : Nat} {w : Write ρ} (h : R.event n = .write w) :
    R.newsAt n = ((R.state n).table.perform e w).2.2 := by rw [newsAt, h]

theorem next_write {n : Nat} {w : Write ρ} (h : R.event n = .write w) : (R.state n).untold = [] ∧
    R.state (n + 1) = { table := ((R.state n).table.perform e w).2.1, untold := R.newsAt n } := by
  obtain ⟨w', hev, huntold, hs⟩ | ⟨_, hev, -⟩ | ⟨_, _, hev, -, -⟩ | ⟨hev, -⟩ := step_cases (R.next n)
  · cases h.symm.trans hev
    exact ⟨huntold, hs.trans (by rw [R.newsAt_of_write h])⟩
  all_goals cases h.symm.trans hev

theorem newsAt_of_not_write {n : Nat} (h : ∀ w, R.event n ≠ .write w) : R.newsAt n = [] := by
  rw [newsAt]
  split
  · exact absurd ‹_› (h _)
  · rfl

/-- There are notices only of a change that is made, and they say what it is. -/
theorem write_of_mem_newsAt {n : Nat} {notice : Notice ω} (h : notice ∈ R.newsAt n) :
    ∃ w, R.event n = .write w ∧ w.applies e (R.state n).table = true ∧
      notice.change = w.change ∧ notice.key = w.key e := by
  by_cases hev : ∃ w, R.event n = .write w
  · obtain ⟨w, hev⟩ := hev
    rw [R.newsAt_of_write hev] at h
    cases happlies : w.applies e (R.state n).table with
    | false =>
      rw [Table.perform_of_refused happlies] at h
      exact absurd h List.not_mem_nil
    | true =>
      obtain ⟨observer, rfl⟩ := Table.exists_of_mem_news happlies h
      exact ⟨w, hev, happlies, rfl, rfl⟩
  · rw [newsAt_of_not_write R fun w hw => hev ⟨w, hw⟩] at h
    exact absurd h List.not_mem_nil

/-- All but a change leaves the rows as they are. -/
theorem rows_of_not_write {n : Nat} (h : ∀ w, R.event n ≠ .write w) :
    (R.state (n + 1)).table.rows = (R.state n).table.rows := by
  obtain ⟨w, hev, -, -⟩ | ⟨observer, -, hs⟩ | ⟨notice, untold, -, -, hs⟩ | ⟨-, hs⟩ := step_cases (R.next n)
  · exact absurd hev (h w)
  all_goals exact congrArg (·.table.rows) hs

/-- What is heard is no longer to be heard, and what is announced is. -/
theorem heardAt_append_untold (n : Nat) :
    R.heardAt n ++ (R.state (n + 1)).untold = (R.state n).untold ++ R.newsAt n := by
  obtain ⟨w, hev, huntold, -⟩ | ⟨observer, hev, hs⟩ | ⟨notice, untold, hev, huntold, hs⟩ | ⟨hev, hs⟩ :=
    step_cases (R.next n)
  · rw [(R.next_write hev).2, huntold, heardAt, hev]
  · rw [newsAt_of_not_write R (by rw [hev]; nofun), hs, heardAt, hev]
    exact (List.append_nil _).symm
  · rw [newsAt_of_not_write R (by rw [hev]; nofun), hs, heardAt, hev, huntold]
    exact (List.append_nil _).symm
  · rw [newsAt_of_not_write R (by rw [hev]; nofun), hs, heardAt, hev]
    exact (List.append_nil _).symm

/-! ## All steps -/

theorem sound (n : Nat) : (R.state n).Sound e :=
  R.always (p := Sound e) ⟨Table.wellKeyed_ofRows e rows, fun _ hn => absurd hn List.not_mem_nil⟩
    (fun _ _ _ h hs => hs.step h) n

/-- All that is announced is heard, in the same order, but for what is still to be heard. -/
theorem heard_append_untold (a n : Nat) :
    R.heard a n ++ (R.state (a + n)).untold = (R.state a).untold ++ R.announced a n := by
  induction n with
  | zero => exact (List.append_nil _).symm
  | succ n ih =>
    have hstep := R.heardAt_append_untold (a + n)
    calc R.heard a (n + 1) ++ (R.state (a + (n + 1))).untold
      _ = R.heard a n ++ (R.heardAt (a + n) ++ (R.state (a + n + 1)).untold) := List.append_assoc _ _ _
      _ = R.heard a n ++ (R.state (a + n)).untold ++ R.newsAt (a + n) := by
        rw [hstep, List.append_assoc]
      _ = (R.state a).untold ++ R.announced a (n + 1) := by
        rw [ih, List.append_assoc, announced]

theorem observers_eq_attached (n : Nat) : (R.state n).table.observers = R.attached n := by
  induction n with
  | zero =>
    rw [R.start]
    rfl
  | succ n ih =>
    rw [attached, ← ih]
    obtain ⟨w, hev, -, hs⟩ | ⟨observer, hev, hs⟩ | ⟨notice, untold, hev, -, hs⟩ | ⟨hev, hs⟩ :=
      step_cases (R.next n)
    · rw [hev, hs, Table.observers_perform]
      exact (List.append_nil _).symm
    · rw [hev, hs]
      rfl
    all_goals rw [hev, hs]; exact (List.append_nil _).symm

theorem attached_mono {a : Nat} {observer : ω} (h : observer ∈ R.attached a) (n : Nat) :
    observer ∈ R.attached (a + n) := by
  induction n with
  | zero => exact h
  | succ n ih => exact List.mem_append_left _ ih

theorem get?_eq_reference (n : Nat) : (R.state n).table.get? = R.reference n := by
  induction n with
  | zero =>
    rw [R.start]
    exact Table.get?_ofRows e rows
  | succ n ih =>
    cases hev : R.event n with
    | write w =>
      rw [(R.next_write hev).2, reference, hev, ← ih]
      exact Table.get?_perform e _ w
    | attach observer | tell | idle =>
      have hrows := R.rows_of_not_write (n := n) (by rw [hev]; nofun)
      rw [reference, hev, ← ih]
      exact congrArg Dict.find? hrows

theorem mem_untold_of_mem_heardAt {n : Nat} {notice : Notice ω} (h : notice ∈ R.heardAt n) :
    notice ∈ (R.state n).untold := by
  rw [heardAt] at h
  split at h
  · exact List.mem_of_mem_take h
  · exact absurd h List.not_mem_nil

/-- What is still to be heard is of a change since which the rows have stayed as they are. -/
theorem news_of_untold {n : Nat} {notice : Notice ω} (h : notice ∈ (R.state n).untold) :
    ∃ i < n, notice ∈ R.newsAt i ∧
      (R.state n).table.rows = (R.state (i + 1)).table.rows := by
  induction n with
  | zero =>
    rw [R.start] at h
    cases h
  | succ n ih =>
    by_cases hev : ∃ w, R.event n = .write w
    · obtain ⟨w, hev⟩ := hev
      rw [(R.next_write hev).2] at h
      exact ⟨n, Nat.lt_succ_self n, h, rfl⟩
    · have hno : ∀ w, R.event n ≠ .write w := fun w hw => hev ⟨w, hw⟩
      have hlaw := R.heardAt_append_untold n
      rw [newsAt_of_not_write R hno, List.append_nil] at hlaw
      obtain ⟨i, hin, hnews, hrows⟩ := ih (hlaw ▸ List.mem_append_right _ h)
      exact ⟨i, Nat.lt_succ_of_lt hin, hnews, (R.rows_of_not_write hno).trans hrows⟩

theorem announced_add (a n m : Nat) :
    R.announced a (n + m) = R.announced a n ++ R.announced (a + n) m := by
  induction m with
  | zero => exact (List.append_nil _).symm
  | succ m ih =>
    have hlast : R.newsAt (a + (n + m)) = R.newsAt (a + n + m) := congrArg R.newsAt (Nat.add_assoc a n m).symm
    calc R.announced a (n + m + 1)
      _ = R.announced a n ++ R.announced (a + n) m ++ R.newsAt (a + n + m) := by rw [announced, ih, hlast]
      _ = R.announced a n ++ R.announced (a + n) (m + 1) := List.append_assoc _ _ _

theorem announced_eq_nil {a n : Nat} (h : ∀ i < n, ∀ w, R.event (a + i) ≠ .write w) :
    R.announced a n = [] := by
  induction n with
  | zero => rfl
  | succ n ih =>
    rw [announced, ih fun i hi => h i (Nat.lt_succ_of_lt hi),
      newsAt_of_not_write R (h n (Nat.lt_succ_self n)), List.append_nil]

/-- Until the next change, what is heard and what is still to be heard are the notices of the last. -/
theorem heard_of_write {n : Nat} {w : Write ρ} (h : R.event n = .write w) {j : Nat}
    (hno : ∀ i < j, ∀ w', R.event (n + 1 + i) ≠ .write w') :
    R.heard (n + 1) j ++ (R.state (n + 1 + j)).untold = R.newsAt n := by
  rw [R.heard_append_untold, R.announced_eq_nil hno, List.append_nil, (R.next_write h).2]

/-- As long as no change is made, the keys are those at first. -/
theorem keySet_of_not_write {n : Nat} (h : ∀ i < n, ∀ w, R.event i ≠ .write w) :
    (R.state n).table.keySet = (rows.map e.key).toFinset := by
  have hrows : (R.state n).table.rows = (Table.ofRows e rows : Table ρ ω).rows := by
    induction n with
    | zero => rw [R.start]
    | succ n ih =>
      rw [R.rows_of_not_write (h n (Nat.lt_succ_self n)), ih fun i hi => h i (Nat.lt_succ_of_lt hi)]
  rw [Table.keySet, hrows, ← Table.keySet, Table.keySet_ofRows]

variable [DecidableEq ω]

theorem replay_newsAt {n : Nat} {observer : ω} (h : observer ∈ R.attached n) :
    replay (R.state n).table.keySet ((R.newsAt n).filter (·.observer = observer)) =
      (R.state (n + 1)).table.keySet := by
  by_cases hev : ∃ w, R.event n = .write w
  · obtain ⟨w, hev⟩ := hev
    rw [(R.next_write hev).2, R.newsAt_of_write hev]
    exact Table.replay_news e w (R.observers_eq_attached n ▸ h)
  · have hno : ∀ w, R.event n ≠ .write w := fun w hw => hev ⟨w, hw⟩
    rw [newsAt_of_not_write R hno, Table.keySet, Table.keySet, R.rows_of_not_write hno]
    rfl

/-- The changes that are announced lead from the keys of the table to those that it has after them. -/
theorem replay_announced {a : Nat} {observer : ω} (h : observer ∈ R.attached a) (n : Nat) :
    replay (R.state a).table.keySet ((R.announced a n).filter (·.observer = observer)) =
      (R.state (a + n)).table.keySet := by
  induction n with
  | zero => rfl
  | succ n ih =>
    rw [announced, List.filter_append, replay_append, ih]
    exact R.replay_newsAt (R.attached_mono h n)

/-- So does what an observer hears, when he has heard it all. -/
theorem replay_heard {a n : Nat} {observer : ω} (h : observer ∈ R.attached a)
    (hall : (R.state (a + n)).untold = []) :
    replay (R.state a).table.keySet ((R.heard a n).filter (·.observer = observer)) =
      (R.state (a + n)).table.keySet := by
  have hheard := R.heard_append_untold a n
  rw [hall, List.append_nil] at hheard
  have hdone : replay (R.state a).table.keySet ((R.state a).untold.filter (·.observer = observer)) =
      (R.state a).table.keySet :=
    replay_of_done fun notice hn => (R.sound a).done notice (List.mem_of_mem_filter hn)
  rw [hheard, List.filter_append, replay_append, hdone]
  exact R.replay_announced h n

/-- Whoever is attached before the first change can do without the table. -/
theorem replay_heard_first {a n : Nat} {observer : ω} (hno : ∀ i < a, ∀ w, R.event i ≠ .write w)
    (h : observer ∈ R.attached a) (hall : (R.state (a + n)).untold = []) :
    replay (rows.map e.key).toFinset ((R.heard 0 (a + n)).filter (·.observer = observer)) =
      (R.state (a + n)).table.keySet := by
  have hnone : R.announced 0 a = [] := R.announced_eq_nil fun i hi => (Nat.zero_add i).symm ▸ hno i hi
  have hheard : R.heard 0 (a + n) = R.announced a n := by
    have hlaw := R.heard_append_untold 0 (a + n)
    rw [Nat.zero_add, hall, List.append_nil, R.start, announced_add, hnone, Nat.zero_add] at hlaw
    exact hlaw
  rw [hheard, ← R.keySet_of_not_write hno]
  exact R.replay_announced h n

/-! ## The whole -/

/-- What is said of changes and of those who hear of them. -/
structure AnnouncesAll : Prop where
  /-- When all has been heard any change can be made, and before that the next notice can be heard.
  Observers can be attached at any time. -/
  goesOn : ∀ n, (∀ observer, (step e (R.state n) (.attach observer)).isSome) ∧
    ((R.state n).untold = [] → ∀ w, (step e (R.state n) (.write w)).isSome) ∧
    ((R.state n).untold ≠ [] → (step e (R.state n) .tell).isSome)
  /-- Every row stands under its own key. -/
  keyed : ∀ n, (R.state n).table.WellKeyed e
  /-- The rows are those of the map. -/
  contents : ∀ n, (R.state n).table.get? = R.reference n
  /-- A change for which there is nothing to change is refused, leaves everything as it is, and nobody is to
  hear of it. -/
  refused : ∀ n w, R.event n = .write w → w.applies e (R.state n).table = false →
    R.answer? n = some (w.refusal e) ∧ (R.state (n + 1)).table = (R.state n).table ∧ R.newsAt n = []
  /-- Any other is made, and each of those who have been attached is to hear what was done, in the order in
  which they were attached. -/
  made : ∀ n w, R.event n = .write w → w.applies e (R.state n).table = true →
    R.answer? n = some (.ok (w.removed? (R.state n).table)) ∧
      (R.state (n + 1)).table.get? = Function.update (R.state n).table.get? (w.key e) w.row? ∧
      R.newsAt n = (R.attached n).map fun observer =>
        { observer, change := w.change, segment := e.segment, key := w.key e }
  /-- Nothing else changes rows, or is to be heard of. -/
  quiet : ∀ n, (∀ w, R.event n ≠ .write w) →
    (R.state (n + 1)).table.rows = (R.state n).table.rows ∧ R.newsAt n = []
  /-- All notices are heard once, in the order in which the changes are made, but for those that are still to
  be heard. -/
  once : ∀ n, R.heard 0 n ++ (R.state n).untold = R.announced 0 n
  /-- Those of a change are heard before the next change is made. -/
  inTurn : ∀ n w, R.event n = .write w → (R.state n).untold = [] ∧
    ∀ j, (∀ i < j, ∀ w', R.event (n + 1 + i) ≠ .write w') →
      R.heard (n + 1) j ++ (R.state (n + 1 + j)).untold = R.newsAt n
  /-- When a notice is heard, the table is still as the change has left it. -/
  visible : ∀ m notice, notice ∈ R.heardAt m → ∃ n < m, ∃ w, R.event n = .write w ∧
    notice ∈ R.newsAt n ∧ notice.change = w.change ∧ notice.key = w.key e ∧
    (R.state m).table.get? notice.key = w.row? ∧
    (R.state m).table.rows = (R.state (n + 1)).table.rows
  /-- What somebody hears who has been attached before the first change leads from the keys of the rows at
  first to those of the table, when he has heard it all. -/
  replayed : ∀ a n observer, (∀ i < a, ∀ w, R.event i ≠ .write w) → observer ∈ R.attached a →
    (R.state (a + n)).untold = [] →
    replay (rows.map e.key).toFinset ((R.heard 0 (a + n)).filter (·.observer = observer)) =
      (R.state (a + n)).table.keySet
  /-- What an observer hears from any step on leads from the keys that the table has then to those that it
  has when he has heard it all. -/
  resumed : ∀ a n observer, observer ∈ R.attached a → (R.state (a + n)).untold = [] →
    replay (R.state a).table.keySet ((R.heard a n).filter (·.observer = observer)) =
      (R.state (a + n)).table.keySet

end Run

/-- Whatever is done to a table, a change is made as a whole or not at all, and all observers hear of it
once, or nobody does. -/
theorem announcesAll [DecidableEq ω] {e : Entity ρ} {rows : List ρ} (R : Run ω e rows) :
    R.AnnouncesAll where
  goesOn n := by
    refine ⟨fun _ => rfl, fun huntold w => ?_, fun huntold => ?_⟩
    · rw [step, huntold]
      rfl
    · obtain ⟨notice, untold, hn⟩ := List.exists_cons_of_ne_nil huntold
      rw [step, hn]
      rfl
  keyed n := (R.sound n).keyed
  contents := R.get?_eq_reference
  refused n w hw happlies := by
    rw [(R.next_write hw).2, R.answer?_of_write hw, R.newsAt_of_write hw, Table.perform_of_refused happlies]
    exact ⟨rfl, rfl, rfl⟩
  made n w hw happlies := by
    have hget := Table.get?_of_applies happlies
    obtain ⟨t', -, hperform⟩ := Table.perform_of_applies happlies
    rw [(R.next_write hw).2, R.answer?_of_write hw, R.newsAt_of_write hw, hperform]
    rw [hperform] at hget
    rw [← R.observers_eq_attached n]
    exact ⟨rfl, hget, rfl⟩
  quiet n hno := ⟨R.rows_of_not_write hno, R.newsAt_of_not_write hno⟩
  once n := by
    have h := R.heard_append_untold 0 n
    rw [R.start, Nat.zero_add] at h
    exact h
  inTurn n w hw := ⟨(R.next_write hw).1, fun j hno => R.heard_of_write hw hno⟩
  visible m notice h := by
    obtain ⟨i, him, hnews, hrows⟩ := R.news_of_untold (R.mem_untold_of_mem_heardAt h)
    obtain ⟨w, hw, happlies, hchange, hkey⟩ := R.write_of_mem_newsAt hnews
    refine ⟨i, him, w, hw, hnews, hchange, hkey, ?_, hrows⟩
    calc (R.state m).table.get? notice.key
      _ = (R.state (i + 1)).table.get? (w.key e) := by rw [hkey, Table.get?, Table.get?, hrows]
      _ = w.row? := by
        rw [(R.next_write hw).2, Table.get?_of_applies happlies, Function.update_self]
  replayed a n observer hno h hall := R.replay_heard_first hno h hall
  resumed a n observer h hall := R.replay_heard h hall

/-- A category comes, changes its name and goes; of its coming only the first observer hears. -/
def shortLived : List (Event Newsroom.Item String) :=
  [.attach "early", .write (.insert (.category { id := 5, name := "arts" })), .tell, .attach "late",
    .write (.update (.category { id := 5, name := "letters" })), .tell, .tell, .write (.remove (.int 5)),
    .tell, .tell, .write (.remove (.int 5))]

example : ∃ R : Run String Newsroom.categories [], (R.heard 0 11).map (fun n => (n.observer, n.change)) =
    [("early", .insert), ("early", .update), ("late", .update), ("early", .remove), ("late", .remove)] :=
  ⟨.ofEvents .idle (fun _ => rfl) shortLived (by decide +kernel), by decide +kernel⟩

end Ledger

end ReadThrough
