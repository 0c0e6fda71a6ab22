import ReadThrough.Proofs.Json.FirstToken
/-!
# Texts are taken apart at their marks

A mark is a token of one character. It is complete as soon as it is read, and what follows it is read as if a
text began there (`lexFrom_mark`). So tokens that end in a mark are the tokens of a beginning of the text
(`exists_of_lex_eq_append`), and a text whose tokens end in a mark may be followed by any other (`lex_append`).
-/

namespace ReadThrough.Json

/-- Brackets, colons and commas. -/
def Token.isMark : Token → Bool
  | .openObject | .closeObject | .openArray | .closeArray | .colon | .comma => true
  | _ => false

/-- Tokens that end in a mark. -/
def EndsInMark (ts : List Token) : Prop := ∃ front mark, ts = front ++ [mark] ∧ mark.isMark = true

/-- No word stands for a mark. -/
def State.Proper : State → Prop
  | .word _ t => t.isMark = false
  | _ => True

/-- What a character completes: a mark at the end, after which nothing has begun, or no mark at all. -/
inductive Feeds : List Token × State → Prop where
  | mark {ts : List Token} {mark : Token} (others : ∀ t ∈ ts, t.isMark = false) : Feeds (ts ++ [mark], .between)
  | other {ts : List Token} {st : State} (others : ∀ t ∈ ts, t.isMark = false) (proper : st.Proper) : Feeds (ts, st)

theorem proper_between : State.between.Proper := trivial

variable {st : State} {c : Char} {cs : List Char} {front ts rest : List Token} {mark t : Token}
  {fed : List Token × State}

/-! ## One character -/

theorem Feeds.cons (ht : t.isMark = false) (h : Feeds fed) : Feeds (t :: fed.1, fed.2) := by
  cases h with
  | @mark ts m others => exact Feeds.mark (List.forall_mem_cons.2 ⟨ht, others⟩)
  | other others proper => exact .other (List.forall_mem_cons.2 ⟨ht, others⟩) proper

theorem feeds_nil (h : st.Proper) : Feeds ([], st) := .other nofun h

theorem feeds_single (ht : t.isMark = false) (h : st.Proper) : Feeds ([t], st) := (feeds_nil h).cons ht

theorem feeds_mark (mark : Token) : Feeds ([mark], .between) := by
  have h : Feeds ([] ++ [mark], .between) := .mark nofun
  exact h

theorem feeds_refuse : Feeds refuse := feeds_single rfl trivial

theorem feeds_start (c : Char) : Feeds (start c) := by
  unfold start
  split
  · exact feeds_nil trivial
  · split
    case h_13 => split <;> first | exact feeds_refuse | exact feeds_nil trivial
    all_goals first | exact feeds_mark _ | exact feeds_nil trivial | exact feeds_nil rfl

theorem feeds_feed (h : st.Proper) (c : Char) : Feeds (feed st c) := by
  unfold feed
  split
  · exact feeds_start c
  · exact (feeds_start c).cons h
  · split
    · split
      · exact feeds_single h trivial
      · exact feeds_nil h
    · exact feeds_refuse
  · split
    · exact feeds_nil trivial
    · split
      · exact (feeds_start c).cons rfl
      · exact feeds_refuse
  · rename_i q
    have hq : q.token.isMark = false := by
      obtain ⟨s, hs⟩ | hs := q.token_cases <;> rw [hs] <;> rfl
    split
    · exact feeds_single hq trivial
    · split
      · exact feeds_nil trivial
      · split
        · exact feeds_refuse
        · exact feeds_nil trivial
  · split
    · exact feeds_nil trivial
    · split
      · exact feeds_nil trivial
      · exact feeds_refuse
  · split
    · split
      · exact feeds_nil trivial
      · exact feeds_nil trivial
    · exact feeds_refuse
  · exact feeds_nil trivial

theorem Feeds.proper (h : Feeds fed) : fed.2.Proper := by
  cases h with
  | mark => trivial
  | other _ proper => exact proper

/-- A mark is the last token that a character completes, and nothing has begun after it. -/
theorem Feeds.of_mark (h : Feeds fed) (hmark : mark.isMark = true) (hfed : fed.1 = front ++ mark :: rest) :
    rest = [] ∧ fed.2 = .between := by
  have absurd_of_mem : ∀ {ts : List Token}, (∀ t ∈ ts, t.isMark = false) → mark ∉ ts := fun others hmem =>
    Bool.false_ne_true ((others mark hmem).symm.trans hmark)
  cases h with
  | @mark ts m others =>
    refine ⟨?_, rfl⟩
    obtain hnil | ⟨rest', last, rfl⟩ := List.eq_nil_or_concat rest
    · exact hnil
    · rw [List.concat_eq_append, ← List.cons_append, ← List.append_assoc] at hfed
      have hfront := (List.append_inj' hfed rfl).1
      exact absurd (hfront ▸ List.mem_append_right front List.mem_cons_self) (absurd_of_mem others)
  | other others =>
    obtain rfl : _ = front ++ mark :: rest := hfed
    exact absurd (List.mem_append_right front List.mem_cons_self) (absurd_of_mem others)

theorem isMark_of_mem_finish (hst : st.Proper) (ht : t ∈ finish st) : t.isMark = false := by
  unfold finish at ht
  split at ht <;> try split at ht
  all_goals simp_all [State.Proper, Token.isMark]

/-! ## Whole texts -/

/-- A mark is completed by a beginning of the text, and what follows it is read as if a text began there. -/
theorem lexFrom_mark (hst : st.Proper) (hmark : mark.isMark = true)
    (h : lexFrom st cs = front ++ mark :: rest) :
    ∃ p q, cs = p ++ q ∧ emitted st p = front ++ [mark] ∧ after st p = .between ∧
      lexFrom .between q = rest := by
  induction cs generalizing st front with
  | nil =>
    have hmem : mark ∈ finish st := by
      rw [lexFrom] at h
      exact h ▸ List.mem_append_right front List.mem_cons_self
    rw [isMark_of_mem_finish hst hmem] at hmark
    cases hmark
  | cons c cs ih =>
    have hfeeds := feeds_feed hst c
    have go : ∀ {front'}, lexFrom (feed st c).2 cs = front' ++ mark :: rest → (feed st c).1 ++ front' = front →
        ∃ p q, c :: cs = p ++ q ∧ emitted st p = front ++ [mark] ∧ after st p = .between ∧
          lexFrom .between q = rest := by
      intro front' h hfront
      obtain ⟨p, q, rfl, hp, hst', hq⟩ := ih hfeeds.proper h
      exact ⟨c :: p, q, rfl, by rw [emitted, hp, ← hfront, List.append_assoc], hst', hq⟩
    rw [lexFrom] at h
    -- The mark is completed further on, or it is among the tokens that `c` completes.
    obtain ⟨front', hfront, hlater⟩ | ⟨last, hlast, hlater⟩ := List.append_eq_append_iff.1 h
    · exact go hlater hfront.symm
    · cases last with
      | nil => exact go (List.nil_append _ ▸ hlater.symm) (by rw [hlast, List.append_nil, List.append_nil])
      | cons m last =>
        obtain ⟨rfl, hrest⟩ := List.cons.inj hlater
        obtain ⟨rfl, hbetween⟩ := hfeeds.of_mark hmark hlast
        refine ⟨[c], cs, rfl, ?_, hbetween, ?_⟩
        · rw [emitted, emitted, List.append_nil, hlast]
        · rw [hbetween] at hrest
          exact hrest.symm

/-- A text whose tokens end in a mark may be followed by any text. -/
theorem lex_append {before : String} (h : EndsInMark (lex before)) (after : String) :
    lex (before ++ after) = lex before ++ lex after := by
  obtain ⟨front, mark, heq, hmark⟩ := h
  obtain ⟨p, q, hpq, hp, hst, hq⟩ := lexFrom_mark proper_between hmark heq
  rw [lexFrom_eq_nil_iff] at hq
  rw [heq, lex, String.toList_append, hpq, List.append_assoc, lexFrom_append, hp, hst, lexFrom_gaps hq, lex]

/-- Tokens that end in a mark are those of a beginning of the text. -/
theorem exists_of_lex_eq_append {s : String} (h : lex s = ts ++ rest) (hts : EndsInMark ts) :
    ∃ before after, s = before ++ after ∧ lex before = ts ∧ lex after = rest := by
  obtain ⟨front, mark, rfl, hmark⟩ := hts
  rw [List.append_assoc, List.singleton_append] at h
  obtain ⟨p, q, hpq, hp, hst, hq⟩ := lexFrom_mark proper_between hmark h
  refine ⟨String.ofList p, String.ofList q, ?_, ?_, ?_⟩
  · rw [← String.ofList_append, ← hpq, String.ofList_toList]
  · have happend := lexFrom_append .between p []
    rw [List.append_nil, hp, hst, lexFrom, finish, List.append_nil] at happend
    rw [lex, String.toList_ofList, happend]
  · rw [lex, String.toList_ofList, hq]

end ReadThrough.Json
