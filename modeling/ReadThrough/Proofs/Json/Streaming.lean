import ReadThrough.Json.Reader
/-!
# Readers take what they need

A reader takes some tokens from the front and gives the rest back, and it takes the same whatever the rest is
(`Streams`). So it is with values of one token, with lists, with one of several names and with values that are
skipped. Of these none refuses a value for a reason of its own (`Plainly`).
-/

namespace ReadThrough.Json

variable {ε α β σ : Type}

/-- What is read from the tokens that a reader takes does not depend on those that follow. -/
def Streams (read : Reader ε α) : Prop :=
  ∀ ts a rest, read ts = .ok (a, rest) →
    ∃ t value, ts = t :: (value ++ rest) ∧ ∀ rest', read (t :: (value ++ rest')) = .ok (a, rest')

/-- A reader that finds fault with the form of the tokens only. -/
def Plainly (read : Reader ε α) : Prop :=
  ∀ ts reason, read ts ≠ .error (.refused reason)

/-! ## Results -/

theorem map_eq_ok_iff {x : Except (Fault ε) (α × List Token)} {f : α → β} {b : β} {rest : List Token} :
    (x.map fun (a, rest) => (f a, rest)) = .ok (b, rest) ↔ ∃ a, x = .ok (a, rest) ∧ f a = b := by
  cases x with
  | error fault => exact ⟨nofun, nofun⟩
  | ok p =>
    obtain ⟨a, ts⟩ := p
    simp only [Except.map, Except.ok.injEq, Prod.mk.injEq]
    constructor
    · rintro ⟨rfl, rfl⟩
      exact ⟨a, ⟨rfl, rfl⟩, rfl⟩
    · rintro ⟨_, ⟨rfl, rfl⟩, rfl⟩
      exact ⟨rfl, rfl⟩

theorem map_eq_refused_iff {x : Except (Fault ε) α} {f : α → β} {reason : ε} :
    x.map f = .error (.refused reason) ↔ x = .error (.refused reason) := by
  cases x with
  | error fault => simp [Except.map]
  | ok a => simp [Except.map]

/-! ## Values -/

section single

variable (one : Token → Option α)

theorem streams_single : Streams (single one : Reader ε α) := by
  intro ts a rest h
  cases ts with
  | nil => cases h
  | cons t ts =>
    rw [single] at h
    split at h
    · rename_i a' ha
      cases h
      refine ⟨t, [], rfl, fun rest' => ?_⟩
      rw [single, List.nil_append, ha]
    · cases h

theorem plainly_single : Plainly (single one : Reader ε α) := by
  intro ts reason h
  cases ts with
  | nil => cases h
  | cons t ts =>
    rw [single] at h
    split at h <;> cases h

theorem streams_elements : Streams (elements one : Reader ε (List α)) := by
  intro ts
  fun_induction elements (ε := ε) one ts with
  | case1 t rest a ha ih =>
    intro l rest' h
    obtain ⟨l, hl, rfl⟩ := map_eq_ok_iff.1 h
    obtain ⟨t', value, rfl, hread⟩ := ih l rest' hl
    refine ⟨t, .comma :: t' :: value, rfl, fun rest' => ?_⟩
    show elements one (t :: .comma :: t' :: (value ++ rest')) = _
    rw [elements, ha]
    exact map_eq_ok_iff.2 ⟨l, hread rest', rfl⟩
  | case3 t rest a ha =>
    intro l rest' h
    cases h
    refine ⟨t, [.closeArray], rfl, fun rest' => ?_⟩
    show elements one (t :: .closeArray :: rest') = _
    rw [elements, ha]
  | case2 | case4 | case5 => nofun

theorem plainly_elements : Plainly (elements one : Reader ε (List α)) := by
  intro ts reason
  fun_induction elements (ε := ε) one ts with
  | case1 t rest a ha ih => exact fun h => ih (map_eq_refused_iff.1 h)
  | case2 | case3 | case4 | case5 => nofun

theorem streams_list : Streams (list one : Reader ε (List α)) := by
  intro ts l rest h
  unfold list at h
  split at h
  · cases h
    exact ⟨.openArray, [.closeArray], rfl, fun _ => rfl⟩
  · rename_i ts hne
    obtain ⟨t, value, rfl, hread⟩ := streams_elements one ts l rest h
    refine ⟨.openArray, t :: value, rfl, fun rest' => ?_⟩
    rw [List.cons_append, list]
    · exact hread rest'
    · intro rest'' heq
      exact hne (value ++ rest) (by rw [(List.cons.inj heq).1])
  · cases h

theorem plainly_list : Plainly (list one : Reader ε (List α)) := by
  intro ts reason h
  unfold list at h
  split at h
  · cases h
  · exact plainly_elements one _ reason h
  · cases h

end single

theorem streams_nullable {read : Reader ε α} (h : Streams read) : Streams (nullable read) := by
  intro ts a rest hread
  unfold nullable at hread
  split at hread
  · cases hread
    exact ⟨.null, [], rfl, fun _ => rfl⟩
  · rename_i hne
    obtain ⟨a, ha, rfl⟩ := map_eq_ok_iff.1 hread
    obtain ⟨t, value, rfl, hvalue⟩ := h ts a rest ha
    refine ⟨t, value, rfl, fun rest' => ?_⟩
    rw [nullable]
    · exact map_eq_ok_iff.2 ⟨a, hvalue rest', rfl⟩
    · intro rest'' heq
      exact hne (value ++ rest) (by rw [(List.cons.inj heq).1])

theorem plainly_nullable {read : Reader ε α} (h : Plainly read) : Plainly (nullable read) := by
  intro ts reason hread
  unfold nullable at hread
  split at hread
  · cases hread
  · exact h ts reason (map_eq_refused_iff.1 hread)

section choice

variable (names : List (String × α))

theorem streams_choice : Streams (choice names : Reader ε α) := by
  intro ts a rest h
  unfold choice at h
  split at h
  · rename_i s ts
    split at h
    · rename_i a' ha
      cases h
      refine ⟨.text s, [], rfl, fun rest' => ?_⟩
      rw [List.nil_append, choice, ha]
    · cases h
  · rename_i s ts
    split at h
    · rename_i a' ha
      cases h
      refine ⟨.openObject, [.text s, .colon, .null, .closeObject], rfl, fun rest' => ?_⟩
      show choice names (.openObject :: .text s :: .colon :: .null :: .closeObject :: rest') = _
      rw [choice, ha]
    · cases h
  · cases h

theorem plainly_choice : Plainly (choice names : Reader ε α) := by
  intro ts reason h
  unfold choice at h
  split at h
  · split at h <;> cases h
  · split at h <;> cases h
  · cases h

end choice

/-! ## Values that nobody asks for -/

/-- Inside a value a token stops the skipping or leads on, whatever follows it. -/
theorem skipFrom_cons {e : Expects} {nest : List Nest} (h : ¬ (e = .next ∧ nest = [])) (t : Token) :
    (∀ ts, skipFrom e nest (t :: ts) = none) ∨
      ∃ e' nest', ∀ ts, skipFrom e nest (t :: ts) = skipFrom e' nest' ts := by
  cases e <;> rcases nest with - | ⟨- | -, nest⟩ <;> cases t <;>
    first
      | exact .inl fun _ => rfl
      | exact .inr ⟨_, _, fun _ => rfl⟩
      | exact absurd ⟨rfl, rfl⟩ h

theorem skipFrom_nil {e : Expects} {nest : List Nest} (h : ¬ (e = .next ∧ nest = [])) :
    skipFrom e nest [] = none := by
  cases e <;> cases nest <;> first | rfl | exact absurd ⟨rfl, rfl⟩ h

theorem skipFrom_append {e : Expects} {nest : List Nest} {ts rest : List Token}
    (h : skipFrom e nest ts = some rest) :
    ∃ value, ts = value ++ rest ∧ ∀ rest', skipFrom e nest (value ++ rest') = some rest' := by
  induction ts generalizing e nest with
  | nil =>
    by_cases hend : e = .next ∧ nest = []
    · obtain ⟨rfl, rfl⟩ := hend
      cases h
      exact ⟨[], rfl, fun rest' => by cases rest' <;> rfl⟩
    · rw [skipFrom_nil hend] at h
      cases h
  | cons t ts ih =>
    -- A value that is over is not skipped any further, and any other one does not end before `t`.
    by_cases hend : e = .next ∧ nest = []
    · obtain ⟨rfl, rfl⟩ := hend
      cases h
      exact ⟨[], rfl, fun rest' => by cases rest' <;> rfl⟩
    · obtain hnone | ⟨e', nest', hnext⟩ := skipFrom_cons hend t
      · rw [hnone] at h
        cases h
      · rw [hnext] at h
        obtain ⟨value, rfl, hvalue⟩ := ih h
        exact ⟨t :: value, rfl, fun rest' => (hnext _).trans (hvalue rest')⟩

/-- What is skipped does not depend on what follows it. -/
theorem skip_append {ts rest : List Token} (h : skip ts = (.ok rest : Except (Fault ε) _)) :
    ∃ value, ts = value ++ rest ∧ ∀ rest', skip (value ++ rest') = (.ok rest' : Except (Fault ε) _) := by
  rw [skip] at h
  split at h
  · rename_i rest' hskip
    cases h
    obtain ⟨value, rfl, hvalue⟩ := skipFrom_append hskip
    exact ⟨value, rfl, fun rest' => by rw [skip, hvalue]⟩
  · cases h

theorem plainly_skip {ts : List Token} {reason : ε} : skip ts ≠ .error (.refused reason) := by
  rw [skip]
  split <;> nofun

/-! ## Fields -/

/-- A field whose reader takes what it needs, and does not begin with a bracket that closes. -/
structure Field.Lawful (field : Field ε σ) : Prop where
  streams : ∀ acc, Streams (field.read acc)
  opens : ∀ acc rest, field.read acc (.closeArray :: rest) = .error .form

section fields

variable {name : String} {read : Reader ε α} {set : σ → α → σ} {acc acc' : σ} {a : α} {ts rest : List Token}

theorem Field.opt_eq_ok_iff : (Field.opt name read set).read acc ts = .ok (acc', rest) ↔
    ∃ a, read ts = .ok (a, rest) ∧ set acc a = acc' := map_eq_ok_iff

theorem Field.read_opt (h : read ts = .ok (a, rest)) :
    (Field.opt name read set).read acc ts = .ok (set acc a, rest) := opt_eq_ok_iff.2 ⟨a, h, rfl⟩

theorem Field.lawful_opt (hread : Streams read) (hopens : ∀ rest, read (.closeArray :: rest) = .error .form) :
    (Field.opt name read set).Lawful where
  streams acc ts acc' rest h := by
    obtain ⟨a, ha, rfl⟩ := opt_eq_ok_iff.1 h
    obtain ⟨t, value, rfl, hvalue⟩ := hread ts a rest ha
    exact ⟨t, value, rfl, fun rest' => read_opt (hvalue rest')⟩
  opens acc rest := by
    show (read (.closeArray :: rest)).map _ = _
    rw [hopens]
    rfl

theorem plainly_opt (h : Plainly read) (acc : σ) : Plainly ((Field.opt name read set).read acc) :=
  fun ts reason hread => h ts reason (map_eq_refused_iff.1 hread)

/-! A field that must be there is read as one that may be missing. -/

theorem Field.read_req (h : read ts = .ok (a, rest)) :
    (Field.req name read set).read acc ts = .ok (set acc a, rest) := map_eq_ok_iff.2 ⟨a, h, rfl⟩

theorem Field.lawful_req (hread : Streams read) (hopens : ∀ rest, read (.closeArray :: rest) = .error .form) :
    (Field.req name read set).Lawful :=
  have hopt : (Field.opt name read set).Lawful := lawful_opt hread hopens
  ⟨hopt.streams, hopt.opens⟩

theorem plainly_req (h : Plainly read) (acc : σ) : Plainly ((Field.req name read set).read acc) :=
  fun ts reason hread => h ts reason (map_eq_refused_iff.1 hread)

end fields

end ReadThrough.Json
