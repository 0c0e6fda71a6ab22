import ReadThrough.Proofs.Service.Overtaken
import ReadThrough.Proofs.Service.Staleness
import ReadThrough.Proofs.Tenancy.Basic
/-!
# Services that share a segment

Services whose rows are of different kinds may keep them in one segment of one cache, and even under the
same keys. To each of them a run of the tenancy is a run of a service (`Run.process`), as nobody else puts
rows of its kind into the cache (`keeps_of_op?`). So a load hears only of what its own service has learned;
it leaves an entry of another kind where it is; and an invalidation, which knows nothing of kinds, takes
away the entry of whoever has put it there, and overtakes what any of them is about to write (`isolation`).
-/

namespace ReadThrough.Tenancy

variable {ι ρ : Type} {T : Setup ι ρ}

/-! ## Steps -/

/-- A step that a service takes itself takes no time. -/
theorem clock_of_own {u : Service.Setup ρ} {s s' : Service ρ} {ev : Service.Event ρ} (hown : own ev = true)
    (h : u.step s ev = some s') : s'.clock = s.clock := by
  cases Service.step_moves h with
  | touch | pass => cases hown
  | begin | join | drop | sleep | fire | ask | settle | write | reply | note | read | prime | close => rfl

/-- What a step of a service puts into the cache is a row of its own kind, so it is foreign to the
others. -/
theorem keeps_of_op? {u : Service.Setup ρ} {s : Service ρ} {ev : Service.Event ρ} (hown : own ev = true)
    {op : Cache.Op (Held ρ)} (hop : u.op? s ev = some op) {e : Entity ρ} (he : u.entity.kind ≠ e.kind) :
    Service.keeps e op = false := by
  rcases Service.op?_cases hop with ⟨k, rfl⟩ | ⟨k, row, epoch, rfl⟩ | rfl
  · rfl
  · exact decide_eq_false fun h => he h.2
  · cases hown

/-- What others do to the cache puts no rows of a tenant into it. -/
theorem keeps_of_not_fills {op : Cache.Op (Held ρ)} (h : op.fills T.segment = false) (B : ι) :
    Service.keeps (T.entity B) op = false := by
  cases op with
  | set s k v | setIfCurrent s k v epoch =>
    have hs : s ≠ T.segment := of_decide_eq_false h
    exact decide_eq_false fun hk => hs (hk.1.trans (T.segment_eq B))
  | get | delete | clearSegment | clearAll | purge => rfl

/-- A load that comes upon an entry of another kind does not see it, and leaves it there. -/
theorem look_of_foreign {s : Tenancy ι ρ} {B : ι} {k : Key} {x : Entry (Held ρ)}
    (hx : s.cache.find? T.segment k = some x) (hlive : x.expired s.clock = false)
    (hkind : x.value.kind ≠ (T.entity B).kind) : (T.service B).look (s.view B) k = (none, s.cache) := by
  by_cases hon : (T.service B).config.enabled = true
  · have hx' : (s.view B).cache.find? (T.service B).entity.segment k = some x := T.segment_eq B ▸ hx
    have hread : Held.read (T.service B).entity.kind x.value = none := if_neg hkind
    rw [Service.look_of_not_expired hon hx' hlive, hread]
    rfl
  · exact if_neg hon

variable [DecidableEq ι]

/-- The events that are possible, and the tenancy after each. -/
inductive Moves (T : Setup ι ρ) (s : Tenancy ι ρ) : Event ι ρ → Tenancy ι ρ → Prop where
  | act {B : ι} {ev : Service.Event ρ} {t : Service ρ} (own : own ev = true)
      (next : (T.service B).step (s.view B) ev = some t) :
      Moves T s (.act B ev) { s with cache := t.cache, services := Function.update s.services B t }
  | touch {op : Cache.Op (Held ρ)} (foreign : op.fills T.segment = false) :
      Moves T s (.touch op) { s with cache := op.apply s.clock s.cache }
  | pass {ms : Nat} : Moves T s (.pass ms) { s with clock := s.clock + ms }

theorem step_moves {s s' : Tenancy ι ρ} {ev : Event ι ρ} (h : T.step s ev = some s') : Moves T s ev s' := by
  cases ev with
  | act B ev =>
    simp only [Setup.step] at h
    split at h
    · rename_i hown
      obtain ⟨t, ht, rfl⟩ := Option.map_eq_some_iff.1 h
      exact .act hown ht
    · cases h
  | touch op =>
    simp only [Setup.step] at h
    split at h
    · cases h
    · rename_i hop
      cases h
      exact .touch (Bool.eq_false_of_not_eq_true hop)
  | pass ms =>
    cases h
    exact .pass

/-- The tenancy after a step of one service. -/
def withService (s : Tenancy ι ρ) (C : ι) (t : Service ρ) : Tenancy ι ρ :=
  { s with cache := t.cache, services := Function.update s.services C t }

theorem view_withService_self (s : Tenancy ι ρ) (C : ι) {t : Service ρ} (h : t.clock = s.clock) :
    (s.withService C t).view C = t := by
  simp only [view, withService, Function.update_self, ← h]

theorem view_withService_of_ne (s : Tenancy ι ρ) {B C : ι} (h : B ≠ C) (t : Service ρ) :
    (s.withService C t).view B = { s.view B with cache := t.cache } := by
  simp only [view, withService, Function.update_of_ne h]

/-- A step of the tenancy is a step of each of its services. -/
theorem step_process {s s' : Tenancy ι ρ} {ev : Event ι ρ} (h : T.step s ev = some s') (B : ι) :
    (T.service B).step (s.view B) (T.eventOf s B ev) = some (s'.view B) := by
  cases step_moves h with
  | @act C ev t hown hnext =>
    show _ = some ((s.withService C t).view B)
    by_cases hB : B = C
    · subst hB
      rw [Setup.eventOf, if_pos rfl, view_withService_self s B (clock_of_own hown hnext)]
      exact hnext
    · -- To another service it is what the step does to the cache.
      rw [Setup.eventOf, if_neg (Ne.symm hB), view_withService_of_ne s hB, Service.cache_step hnext]
      cases hop : (T.service C).op? (s.view C) ev with
      | none => rfl
      | some op =>
        have hkeeps : Service.keeps (T.entity B) op = false :=
          keeps_of_op? hown hop fun hk => hB (T.kind_injective C B hk).symm
        show (if Service.keeps (T.entity B) op then none else _) = _
        rw [hkeeps]
        rfl
  | @touch op hforeign =>
    show (if Service.keeps (T.entity B) op then none else _) = _
    rw [keeps_of_not_fills hforeign B]
    rfl
  | pass => rfl

/-- A step of a service changes the cache as it does for the service alone. -/
theorem cache_of_act {s s' : Tenancy ι ρ} {B : ι} {ev : Service.Event ρ}
    (h : T.step s (.act B ev) = some s') :
    ∃ t, (T.service B).step (s.view B) ev = some t ∧ s'.cache = t.cache := by
  cases step_moves h with | act _ hnext =>
  exact ⟨_, hnext, rfl⟩

/-! ## Rows that are put into the cache at once -/

/-- A row may be put into the cache at once whenever one likes, and then it is there, whatever has been
there before; with the cache off nothing is kept. -/
theorem after_seeding (s : Tenancy ι ρ) (B : ι) (row : ρ) :
    ∃ s', after? T.step s (seeding B (s.services B).pageCount row) = some s' ∧
      s'.cache = if (T.config B).enabled then
          s.cache.keep s.clock (T.entity B) ((T.entity B).key row) (some row)
        else s.cache := by
  have hcurrent : s.cache.isCurrent (T.entity B).segment (s.cache.epoch (T.entity B).segment) = true :=
    decide_eq_true rfl
  simp [seeding, after?, Setup.step, own, view, Service.Setup.step, Setup.service, RowCache.keepIfCurrent,
    RowCache.keep, Cache.setIfCurrent, hcurrent]

/-! ## Runs -/

/-- A run of a tenancy from its start. -/
abbrev Run (T : Setup ι ρ) := ReadThrough.Run T.step T.fresh

/-- What a run of the tenancy is to one of its services. -/
def Run.process (R : Run T) (B : ι) : Service.Run (T.service B) where
  state n := (R.state n).view B
  event n := T.eventOf (R.state n) B (R.event n)
  start := by rw [R.start]; rfl
  next n := step_process (R.next n) B

/-- A load that begins where there is an entry of another kind leaves the cache as it is. -/
theorem Run.cache_of_foreign {R : Run T} {n : Nat} {B : ι} {k : Key} {x : Entry (Held ρ)}
    (he : R.event n = .act B (.begin k)) (hx : (R.state n).cache.find? T.segment k = some x)
    (hlive : x.expired (R.state n).clock = false) (hkind : x.value.kind ≠ (T.entity B).kind) :
    (R.state (n + 1)).cache = (R.state n).cache := by
  obtain ⟨t, hstep, hcache⟩ := cache_of_act (he ▸ R.next n)
  cases Service.step_moves hstep with | begin =>
  rw [hcache]
  exact congrArg Prod.snd (look_of_foreign hx hlive hkind)

/-- What somebody else does to the cache is, to every service, done to its cache. -/
theorem Run.op_of_touch {R : Run T} {n : Nat} {op : Cache.Op (Held ρ)} (he : R.event n = .touch op)
    (B : ι) : (R.process B).history.op n = some op := by
  show (T.service B).op? ((R.state n).view B) (T.eventOf (R.state n) B (R.event n)) = some op
  rw [he]
  rfl

theorem Run.cache_of_touch {R : Run T} {n : Nat} {op : Cache.Op (Held ρ)} (he : R.event n = .touch op) :
    (R.state (n + 1)).cache = op.apply (R.state n).clock (R.state n).cache := by
  have hstep := R.next n
  rw [he] at hstep
  generalize R.state (n + 1) = s' at hstep ⊢
  cases step_moves hstep with | touch =>
  rfl

/-- Services of different kinds of rows that share a segment keep out of each other's way. What a load is
told of a row its own service has learned before, from its own store or with a row that was put into the
cache for it. A load that comes upon an entry of another kind that is not expired does not see it and leaves
it there. An invalidation takes away the entry under a key whatever its kind is, and overtakes whatever any
of the services writes afterwards under an epoch from before. And a row may be put into the cache at once
whenever one likes. -/
theorem isolation {R : Run T} (hP : ∀ B, (R.process B).Prompt) :
    (∀ B b r l k v, (R.process B).Begins b l k → (R.process B).Answers r l (.ok v) →
      ∃ q < r, (R.process B).Learns q k v) ∧
    (∀ n B k x, R.event n = .act B (.begin k) → (R.state n).cache.find? T.segment k = some x →
      x.expired (R.state n).clock = false → x.value.kind ≠ (T.entity B).kind →
      ((T.service B).look ((R.state n).view B) k).1 = none ∧
        (R.state (n + 1)).cache = (R.state n).cache) ∧
    (∀ i op, R.event i = .touch op →
      (∀ k, op.removes T.segment k = true → (R.state (i + 1)).cache.find? T.segment k = none) ∧
      (op.invalidates T.segment = true → ∀ B t n, (R.process B).Uses t n → t ≤ i → i < n →
        (R.state (n + 1)).cache = (R.state n).cache)) ∧
    ∀ n B row, ∃ s', after? T.step (R.state n) (seeding B ((R.state n).services B).pageCount row) = some s' ∧
      s'.cache = if (T.config B).enabled then
          (R.state n).cache.keep (R.state n).clock (T.entity B) ((T.entity B).key row) (some row)
        else (R.state n).cache := by
  refine ⟨fun B b r l k v hb hr => Service.Run.learns_of_answers hb hr, ?_, ?_,
    fun n B row => after_seeding _ B row⟩
  · intro n B k x he hx hlive hkind
    exact ⟨congrArg Prod.fst (look_of_foreign hx hlive hkind), Run.cache_of_foreign he hx hlive hkind⟩
  · intro i op he
    constructor
    · intro k hremoves
      rw [Run.cache_of_touch he]
      exact Cache.find?_of_removes hremoves
    · intro hinvalidates B t n huse hti hin
      have hinvalidates : op.invalidates (T.service B).entity.segment = true :=
        T.segment_eq B ▸ hinvalidates
      exact Service.Run.cache_of_overtaken (hP B) huse hti hin (Run.op_of_touch he B) hinvalidates

/-! ## A run -/

/-- The articles of the newsroom, and the teasers in the same segment. -/
def newsroom : Setup Bool Newsroom.Item where
  segment := "Article"
  entity B := if B then Newsroom.articles else Newsroom.teasers
  segment_eq B := by cases B <;> rfl
  kind_injective B C h := by
    cases B <;> cases C
    · rfl
    · exact absurd h (by decide)
    · exact absurd h (by decide)
    · rfl

/-- An article. -/
def breaking : Newsroom.Item :=
  .article { id := 1, title := "Breaking", category := 1, views := 0, published := true }

/-- An article and the teaser under the same key are loaded. When the article is loaded again, the teaser is
in its place; and before the article is written, what is under the key is deleted. -/
def sharedKey : List (Event Bool Newsroom.Item) :=
  [.act false (.begin (.int 1)), .act false (.join 0), .act false (.sleep 0),
    .act true (.begin (.int 1)), .act true (.join 0), .act true (.sleep 0), .pass 20,
    .act false (.fire 0), .act true (.fire 0), .act false (.ask 0),
    .act false (.settle 0 (.ok [.teaser 1])), .act false (.write 0), .act false (.reply 0),
    .act true (.begin (.int 1)), .act true (.ask 0), .act true (.settle 0 (.ok [breaking])),
    .touch (.delete "Article" (.int 1)), .act true (.write 0), .act true (.reply 0)]

/-- The run in which the article and the teaser are loaded. -/
def sharedKeyRun : Run newsroom :=
  .ofEvents (.pass 0) (fun _ => rfl) sharedKey (by decide +kernel)

/-- In the run no epoch is used late. -/
theorem prompt_sharedKeyRun (B : Bool) : (sharedKeyRun.process B).Prompt := by
  refine Service.Run.Prompt.of_quiet (N := 19) (by decide) fun n hn => ?_
  have hquiet : sharedKeyRun.event n = .pass 0 := List.getD_eq_default _ _ hn
  have hpass : (sharedKeyRun.process B).event n = .pass 0 := by
    show newsroom.eventOf _ B (sharedKeyRun.event n) = _
    rw [hquiet]
    rfl
  rw [hpass]
  exact ⟨nofun, nofun⟩

/-- The article is told its own store's row; the teaser is neither seen nor thrown out; it is gone when the key
is deleted, and the article is not written then. -/
theorem isolation_sharedKey :
    (∀ B, (sharedKeyRun.process B).Prompt) ∧
      (sharedKeyRun.process true).Answers 18 0 (.ok (some breaking)) ∧
      (∃ q < 18, (sharedKeyRun.process true).Learns q (.int 1) (some breaking)) ∧
      (sharedKeyRun.state 14).cache = (sharedKeyRun.state 13).cache ∧
      (sharedKeyRun.state 17).cache.find? "Article" (.int 1) = none ∧
      (sharedKeyRun.state 18).cache = (sharedKeyRun.state 17).cache := by
  obtain ⟨hlearns, hforeign, hinvalidates, -⟩ := isolation prompt_sharedKeyRun
  have hanswers : (sharedKeyRun.process true).Answers 18 0 (.ok (some breaking)) := by
    show _ ∈ _
    decide +kernel
  have huse : (sharedKeyRun.process true).Uses 14 17 := .batch 0 rfl rfl
  obtain ⟨hremoved, hovertaken⟩ := hinvalidates 16 (.delete "Article" (.int 1)) rfl
  refine ⟨prompt_sharedKeyRun, hanswers, ?_, ?_, ?_, ?_⟩
  · exact hlearns true 3 18 0 (.int 1) _ ⟨rfl, by decide +kernel⟩ hanswers
  · exact (hforeign 13 true (.int 1) ⟨{ kind := "ArticleView", row := some (.teaser 1) }, 30020⟩ rfl
      (by decide +kernel) (by decide +kernel) (by decide)).2
  · exact hremoved (.int 1) (by decide)
  · exact hovertaken (by decide) true 14 17 huse (by decide) (by decide)

end ReadThrough.Tenancy
