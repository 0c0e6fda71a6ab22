import ReadThrough.Newsroom
import ReadThrough.Proofs.Fleet.Run
import ReadThrough.Proofs.Service.Batching
/-!
# Fresh reads

What a change means to the loads that begin after it. A process that has taken the row out of its cache
since the row changed hears of nothing that the table had before (`Run.fresh_of_removed`). So whoever
made the change reads it (`read_your_writes`), and so does a process that has heard of it
(`peer_invalidation`). When all that is on its way has arrived, the caches agree with the table.
-/

namespace ReadThrough.Fleet

variable {ι ρ : Type} [DecidableEq ι] {F : Setup ι ρ}

namespace Run

section

variable (R : Run F)

/-- What a load is told is the row that the table has at an instant between two, or that it has none
then; or the time that the process gives to the store is up. -/
def Fresh (B : ι) (i r : Nat) (k : Key) (x : Loaded ρ) : Prop :=
  (∃ q, i < q ∧ q ≤ r ∧ x = .ok (R.row? q k)) ∨
    (x = .error .timeout ∧ (F.config B).fetchTimeout.isSome = true)

/-- A load that begins at a step is told what is not older than a change, and it is told something
unless its caller goes away or somebody waits for ever. -/
structure Reads (B : ι) (i b l : Nat) (k : Key) : Prop where
  fresh : ∀ r x, (R.process B).Answers r l x → R.Fresh B i r k x
  answered : (R.process B).Fair →
    ∃ r, b ≤ r ∧ (l ∈ ((R.process B).state r).dropped ∨ ∃ x, (R.process B).Answers r l x)

/-- The listener of a process has heard at a step what another process has announced of a change, or
that it has missed it. -/
def HeardOf (h : Nat) (B : ι) (i c : Nat) (k : Key) : Prop :=
  ∃ A notice j p, A ≠ B ∧ F.linked A = true ∧ i < j ∧ R.Tells j c notice ∧ F.IsFor notice A k ∧
    R.Publishes p j ∧ R.Hears h B (R.state p).bus.published

/-- A process listens before it asks for anything. -/
def Attends (B : ι) : Prop :=
  ∀ n, ((∃ k, (R.process B).event n = .begin k) ∨ (R.process B).event n = .note) →
    ((R.state n).listeners B).isSome = true

/-- Nothing is on its way: every change has returned, every announcement has been published, and every
listener has heard all that there is on the bus. -/
structure Settled (n : Nat) : Prop where
  changes : ∀ c, (R.state n).changes.find? c = none
  outbox : ∀ m, (R.state n).outbox.find? m = none
  listeners : ∀ B here, (R.state n).listeners B = some here → here = (R.state n).bus.published

end

variable {R : Run F}

/-! ## After the row has been taken out of the cache -/

/-- Once a process has taken a row out of its cache, it hears of nothing older. -/
theorem fresh_of_removed {B : ι} (hP : (R.process B).Prompt) {i j b r l : Nat} {k : Key}
    {x : Loaded ρ} {op : Cache.Op (Held ρ)} (hij : i < j) (hjb : j < b)
    (hop : (R.process B).history.op j = some op) (hrem : op.removes F.entity.segment k = true)
    (hb : (R.process B).Begins b l k) (hr : (R.process B).Answers r l x) : R.Fresh B i r k x := by
  obtain ⟨-, ⟨q, v, hqr, rfl, hlearns, hq⟩ | ⟨q, g, e, -, -, rfl, hsettle⟩⟩ :=
    Service.Run.answer_source hP hb hr
  · have hv := R.eq_row?_of_learns hlearns
    have hiq : i < q := by
      rcases hq with hbq | ⟨-, hspares⟩
      · omega
      · -- What was learned before the row was taken out is not there any more.
        by_contra hqi
        exact hspares.not_removes (by omega) hjb hop hrem
    exact .inl ⟨q, hiq, Nat.le_of_lt hqr, by rw [hv]⟩
  · obtain ⟨rfl, htimeout⟩ := R.timeout_of_error hsettle
    exact .inr ⟨rfl, htimeout⟩

theorem reads_of_removed {B : ι} (hP : (R.process B).Prompt) {i j b l : Nat} {k : Key}
    {op : Cache.Op (Held ρ)} (hij : i < j) (hjb : j < b)
    (hop : (R.process B).history.op j = some op) (hrem : op.removes F.entity.segment k = true)
    (hb : (R.process B).Begins b l k) : R.Reads B i b l k where
  fresh := fun _ _ hr => fresh_of_removed hP hij hjb hop hrem hb hr
  answered := fun hF => hF.answered hb

/-- A change that has returned has told all its observers. -/
theorem told_of_finish {i j c : Nat} {k : Key} {observers : List ι} {A : ι}
    (h : R.Changes i c k observers) (hA : A ∈ observers) (hij : i < j) (hj : R.event j = .finish c) :
    ∃ t notice, i < t ∧ t < j ∧ R.Tells t c notice ∧ F.IsFor notice A k := by
  rcases told h hA hij with ⟨news, hnews, notice, hmem, -⟩ | htold
  · have hstep := R.next j
    rw [hj] at hstep
    simp only [Setup.step, hnews] at hstep
    split at hstep
    · rename_i hnil
      cases hnil
      cases hmem
    · cases hstep
  · exact htold

theorem Tells.removes {j c : Nat} {notice : Notice ι} {A : ι} {k : Key} (h : R.Tells j c notice)
    (hfor : F.IsFor notice A k) :
    ∃ op, (R.process A).history.op j = some op ∧ op.removes F.entity.segment k = true :=
  ⟨_, h.op hfor, by simp [Cache.Op.removes]⟩

/-! ## When all has arrived -/

/-- A process that has asked for nothing until it listens listens before it asks for anything. -/
theorem attends_of_listens {B : ι} {n : Nat} (h : ((R.state n).listeners B).isSome = true)
    (hno : ∀ m < n, (∀ k, (R.process B).event m ≠ .begin k) ∧ (R.process B).event m ≠ .note) :
    R.Attends B := by
  intro m hask
  by_cases hm : m < n
  · obtain ⟨hbegin, hnote⟩ := hno m hm
    rcases hask with ⟨k, hk⟩ | hnoted
    · exact absurd hk (hbegin k)
    · exact absurd hnoted hnote
  · exact listens h (Nat.le_of_not_lt hm)

/-- What a process learns, it has asked for. -/
theorem asked_of_learns {B : ι} {q : Nat} {k : Key} {v : Option ρ}
    (h : (R.process B).Learns q k v) :
    ∃ b < q, (∃ k', (R.process B).event b = .begin k') ∨ (R.process B).event b = .note := by
  rcases h with ⟨batch, rows, ⟨-, epoch, hf⟩, hk, -⟩ | ⟨p, rows, row, he, -⟩
  · obtain ⟨l, hw⟩ := Batch.mem_keys.1 hk
    have hbatch := Loader.batch?_of_flight? ((R.process B).numbered q) hf
    obtain ⟨b, hb, hbegin, -⟩ := (R.process B).began_of_waiting hbatch hw
    exact ⟨b, hb, .inl ⟨k, hbegin.1⟩⟩
  · have hstep := (R.process B).next q
    rw [he] at hstep
    generalize (R.process B).state (q + 1) = s' at hstep
    cases Service.step_moves hstep with | read hp =>
    obtain ⟨t, ht, hnote, -⟩ := (R.process B).page_source hp
    exact ⟨t, ht, .inr hnote⟩

/-- A row that is not what it was has changed in between. -/
theorem changes_of_ne {q n : Nat} {k : Key} (hqn : q ≤ n) (h : R.row? n k ≠ R.row? q k) :
    ∃ i c observers, q ≤ i ∧ i < n ∧ R.Changes i c k observers := by
  obtain ⟨i, hqi, hin, hi, hi'⟩ :=
    R.lost (p := fun s => s.table.get? k = R.row? q k) rfl hqn h
  rcases table_step (R.next i) with hsame | ⟨observers, w, news, he, hw⟩
  · rw [hsame] at hi'
    exact absurd hi hi'
  -- A change leaves the rows under other keys as they are.
  · have hget := (Table.of_write? hw).2 k
    have hkey : w.key F.entity = k := by
      by_contra hne
      rw [if_neg (Ne.symm hne)] at hget
      exact hi' (hget.trans hi)
    exact ⟨i, _, observers, hqi, hin, rfl, w, _, news, he, hkey, hw⟩

/-- What another process has announced is heard by everybody who has listened since before, once nothing
is on its way any more. -/
theorem hears_of_settled {n l j c : Nat} {notice : Notice ι} {B : ι} (hn : R.Settled n)
    (hl : ((R.state l).listeners B).isSome = true) (hlj : l ≤ j) (hjn : j < n) (ht : R.Tells j c notice)
    (hlinked : F.linked notice.observer = true) :
    ∃ p h, R.Publishes p j ∧ h < n ∧ R.Hears h B (R.state p).bus.published := by
  obtain ⟨first, hfirst⟩ := Option.isSome_iff_exists.1 hl
  rcases posted ht hlinked hjn with ⟨-, hkept⟩ | ⟨⟨p, hpn, hpub⟩, -⟩
  · rw [hn.outbox] at hkept
    cases hkept
  · have hjp := hpub.1
    have hplace : first ≤ (R.state p).bus.published :=
      Nat.le_trans (listeners_le hfirst) (published_mono (by omega))
    rcases heard hfirst hplace (show l ≤ n by omega) with ⟨now, hnow, hle⟩ | ⟨h, -, hhn, hhears⟩
    -- The listener has come to the end of the bus, and so beyond the place.
    · have hall := hn.listeners B now hnow
      have hlt := published_lt hpub.2 hpn
      omega
    · exact ⟨p, h, hpub, hhn, hhears⟩

/-- When nothing is on its way, a cache has nothing but what the table has. -/
theorem coherent_of_settled (hP : ∀ B, (R.process B).Prompt) (hattends : ∀ B, R.Attends B)
    (hlinked : ∀ B, F.linked B = true)
    (hobserved : ∀ i c k observers, R.Changes i c k observers → observers ≠ [])
    {n : Nat} (hn : R.Settled n) {B : ι} {k : Key} {x : Entry (Held ρ)}
    (hx : ((R.state n).services B).cache.find? F.entity.segment k = some x)
    (hkind : x.value.kind = F.entity.kind) : x.value.row = R.row? n k := by
  obtain ⟨q, hqn, hlearns, hspares⟩ := Service.Run.entry_source (R := R.process B) (hP B) hx hkind
  rw [R.eq_row?_of_learns hlearns]
  -- If the row is not what it was when it was learned, a change has come in between.
  by_contra hne
  obtain ⟨i, c, observers, hqi, hin, hchange⟩ :=
    changes_of_ne (Nat.le_of_lt hqn) (Ne.symm hne)
  obtain ⟨A, hA⟩ := List.exists_mem_of_ne_nil _ (hobserved i c k observers hchange)
  rcases told hchange hA hin with ⟨news, hnews, -⟩ | ⟨j, notice, hij, hjn, htells, hfor⟩
  · rw [hn.changes] at hnews
    cases hnews
  · -- Once told or heard of, the change has taken the row out of the cache.
    by_cases hAB : A = B
    · subst hAB
      obtain ⟨op, hop, hrem⟩ := htells.removes hfor
      exact hspares.not_removes (by omega) hjn hop hrem
    · obtain ⟨b, hbq, hask⟩ := asked_of_learns hlearns
      have hlisten := hattends B b hask
      obtain ⟨p, h, hpub, hhn, hhears⟩ :=
        hears_of_settled hn hlisten (by omega) hjn htells (hlinked _)
      obtain ⟨hph, op, hop, hrem⟩ := hhears.removes hpub htells hfor (hlinked A) (Ne.symm hAB)
      have hjp := hpub.1
      exact hspares.not_removes (by omega) hhn hop hrem

end Run

/-- A load that begins in a process after a change has returned that the process observes is told what
the table had at some instant since the row changed. -/
theorem read_your_writes {R : Run F} {A : ι} (hP : (R.process A).Prompt) {i j b c l : Nat} {k : Key}
    {observers : List ι} (hchange : R.Changes i c k observers) (hA : A ∈ observers) (hij : i < j)
    (hj : R.event j = .finish c) (hjb : j < b) (hb : (R.process A).Begins b l k) :
    R.Reads A i b l k := by
  obtain ⟨t, notice, hit, htj, htells, hfor⟩ := Run.told_of_finish hchange hA hij hj
  obtain ⟨op, hop, hrem⟩ := htells.removes hfor
  exact Run.reads_of_removed hP hit (Nat.lt_trans htj hjb) hop hrem hb

/-- A load that begins in a process which has heard of a change is told what the table had at some
instant since the row changed; and when nothing is on its way, every cache agrees with the table. -/
theorem peer_invalidation {R : Run F} (hP : ∀ B, (R.process B).Prompt) :
    (∀ B i c k observers h b l, R.Changes i c k observers → R.HeardOf h B i c k → h < b →
      (R.process B).Begins b l k → R.Reads B i b l k) ∧
    ((∀ B, R.Attends B) → (∀ B, F.linked B = true) →
      (∀ i c k observers, R.Changes i c k observers → observers ≠ []) →
      ∀ n, R.Settled n → ∀ B k x,
        ((R.state n).services B).cache.find? F.entity.segment k = some x →
        x.value.kind = F.entity.kind → x.value.row = R.row? n k) := by
  constructor
  · intro B i c k observers h b l _ hheard hhb hb
    obtain ⟨A, notice, j, p, hAB, hlinked, hij, htells, hfor, hpub, hhears⟩ := hheard
    obtain ⟨hph, op, hop, hrem⟩ := hhears.removes hpub htells hfor hlinked (Ne.symm hAB)
    have hjp := hpub.1
    exact Run.reads_of_removed (hP B) (by omega) hhb hop hrem hb
  · intro hattends hlinked hobserved n hn B k x hx hkind
    exact Run.coherent_of_settled hP hattends hlinked hobserved hn hx hkind

/-! ## Two processes -/

/-- Two processes that share the newsroom's categories. -/
def newsroom : Setup Bool Newsroom.Item where
  entity := Newsroom.categories
  rows := [.category { id := 1, name := "news" }]
  id B := { bits := if B then 1 else 0 }
  id_injective := by decide

theorem pass_zero (F : Setup ι ρ) (B : ι) (s : Fleet ι ρ) : F.step s (.act B (.pass 0)) = some s := by
  show F.within s B (.pass 0) = some s
  rw [Setup.within, Service.pass_zero, Option.map_some, Function.update_eq_self]

/-- A process loads the category by the first batch that it opens, or by the next one. -/
def loading (B : Bool) (n : Nat) : List (Event Bool Newsroom.Item) :=
  [.act B (.begin (.int 1)), .act B (.join n), .act B (.sleep n), .act B (.pass 20), .act B (.fire n),
    .act B (.ask n), .answer B n, .act B (.write n), .act B (.reply n)]

/-- The category is renamed, and one of the processes observes it. -/
def renamed : List (Event Bool Newsroom.Item) :=
  [.change [true] (.update (.category { id := 1, name := "sports" })), .observe 0, .finish 0]

/-- Both processes have the category in their caches when it is renamed, and load it again. -/
def rereading : List (Event Bool Newsroom.Item) :=
  [.listen true, .listen false] ++ loading true 0 ++ loading false 0 ++ renamed ++ loading true 1 ++
    [.publish 0, .hear true, .hear false] ++ loading false 1

/-- The run in which this happens. -/
def rereadingRun : Run newsroom :=
  .ofEvents (.act true (.pass 0)) (pass_zero newsroom true) rereading (by decide +kernel)

theorem rereadingRun_event {n : Nat} (hn : 44 ≤ n) (B : Bool) :
    (rereadingRun.process B).event n = .pass 0 := by
  show newsroom.eventOf (rereadingRun.state n) B (rereading.getD n (.act true (.pass 0))) = _
  rw [List.getD_eq_default _ _ hn, Setup.eventOf]
  split <;> rfl

theorem rereadingRun_state {n : Nat} (hn : 44 ≤ n) :
    rereadingRun.state n = rereadingRun.state 44 :=
  ReadThrough.Run.state_ofEvents _ _ _ hn

theorem rereadingRun_prompt (B : Bool) : (rereadingRun.process B).Prompt := by
  refine Service.Run.Prompt.of_quiet (N := 44) (by decide) fun n hn => ?_
  rw [rereadingRun_event hn B]
  exact ⟨nofun, nofun⟩

theorem rereadingRun_changes : rereadingRun.Changes 20 0 (.int 1) [true] := by
  have hnext : (rereadingRun.state 20).nextChange = 0 := by decide +kernel
  have he : rereadingRun.event 20 =
      .change [true] (.update (.category { id := 1, name := "sports" })) := rfl
  have hchange := Run.Changes.of_event he (by decide +kernel)
  rw [hnext] at hchange
  exact hchange

/-- The category is the only row that changes. -/
theorem rereadingRun_observed (i c : Nat) (k : Key) (observers : List Bool)
    (h : rereadingRun.Changes i c k observers) : observers ≠ [] := by
  obtain ⟨-, w, table, news, he, -⟩ := h
  have hall : ∀ ev ∈ rereading ++ [.act true (.pass 0)], ∀ observers w,
      ev = .change observers w → observers ≠ [] := by
    simp only [rereading, loading, renamed, List.mem_append, List.mem_cons]
    rintro ev hev observers w rfl
    simp at hev
    rw [hev.1]
    nofun
  refine hall _ ?_ _ _ he
  show rereading.getD i (.act true (.pass 0)) ∈ _
  by_cases hi : i < rereading.length
  · rw [List.getD_eq_getElem _ _ hi]
    exact List.mem_append_left _ (List.getElem_mem hi)
  · rw [List.getD_eq_default _ _ (Nat.le_of_not_lt hi)]
    exact List.mem_append_right _ (List.mem_singleton.2 rfl)

/-- In the end nothing is left to do, neither in the processes nor between them. -/
theorem rereadingRun_end :
    (∀ B, ((rereadingRun.state 44).services B).missed.entries = [] ∧
        ((rereadingRun.state 44).services B).delays = [] ∧
        ((rereadingRun.state 44).services B).loader.flights = [] ∧
        (rereadingRun.state 44).listeners B = some (rereadingRun.state 44).bus.published) ∧
      (rereadingRun.state 44).changes.entries = [] ∧ (rereadingRun.state 44).outbox.entries = [] := by
  decide +kernel

theorem rereadingRun_fair (B : Bool) : (rereadingRun.process B).Fair := by
  refine Service.Run.Fair.of_rest (N := 44) fun n hn => ?_
  show ((rereadingRun.state n).services B).AtRest
  obtain ⟨hmissed, hdelays, hflights, -⟩ := rereadingRun_end.1 B
  rw [rereadingRun_state hn]
  exact ⟨hmissed, hdelays, hflights⟩

theorem rereadingRun_settled : rereadingRun.Settled 44 := by
  obtain ⟨hservices, hchanges, houtbox⟩ := rereadingRun_end
  refine ⟨fun c => ?_, fun m => ?_, fun B here hhere => ?_⟩
  · rw [Dict.find?, hchanges]
    rfl
  · rw [Dict.find?, houtbox]
    rfl
  · obtain ⟨-, -, -, hlistens⟩ := hservices B
    rw [hlistens] at hhere
    exact (Option.some.inj hhere).symm

theorem rereadingRun_attends (B : Bool) : rereadingRun.Attends B := by
  have hlistens : ((rereadingRun.state 2).listeners B).isSome = true := by
    revert B
    decide +kernel
  refine Run.attends_of_listens hlistens fun m hm => ?_
  have hev : (rereadingRun.process B).event m = .pass 0 := by
    match m, hm with
    | 0, _ => rfl
    | 1, _ => rfl
  rw [hev]
  exact ⟨nofun, nofun⟩

/-- The process that observes the change reads it when it loads the category again. -/
theorem read_your_writes_rereading :
    (rereadingRun.process true).Prompt ∧ rereadingRun.Changes 20 0 (.int 1) [true] ∧
      rereadingRun.event 22 = .finish 0 ∧ (rereadingRun.process true).Begins 23 1 (.int 1) ∧
      rereadingRun.Reads true 20 23 1 (.int 1) ∧ (rereadingRun.process true).Fair := by
  have hbegins : (rereadingRun.process true).Begins 23 1 (.int 1) := ⟨rfl, by decide +kernel⟩
  have hreads := read_your_writes (rereadingRun_prompt true) rereadingRun_changes
    (List.mem_singleton.2 rfl) (by decide) (show rereadingRun.event 22 = .finish 0 from rfl) (by decide)
    hbegins
  exact ⟨rereadingRun_prompt true, rereadingRun_changes, rfl, hbegins, hreads, rereadingRun_fair true⟩

theorem rereadingRun_heardOf : rereadingRun.HeardOf 34 false 20 0 (.int 1) := by
  obtain ⟨t, notice, ht, ht', htells, hfor⟩ := Run.told_of_finish rereadingRun_changes
    (List.mem_singleton.2 rfl) (show 20 < 22 by decide) rfl
  obtain rfl : t = 21 := by omega
  have hpost : (rereadingRun.state 21).nextPost = 0 := by decide +kernel
  have hpub : rereadingRun.Publishes 32 21 := ⟨by decide, by rw [hpost]; rfl⟩
  have hplace : (rereadingRun.state 34).listeners false =
      some (rereadingRun.state 32).bus.published := by decide +kernel
  exact ⟨true, notice, 21, 32, by decide, rfl, ht, htells, hfor, hpub, .of_event rfl hplace⟩

/-- The other process reads the change when it has heard of it, and in the end both caches agree with
the table. -/
theorem peer_invalidation_rereading :
    (∀ B, (rereadingRun.process B).Prompt) ∧ rereadingRun.Reads false 20 35 1 (.int 1) ∧
      rereadingRun.Settled 44 ∧ ∀ B k x,
        ((rereadingRun.state 44).services B).cache.find? newsroom.entity.segment k = some x →
        x.value.kind = newsroom.entity.kind → x.value.row = rereadingRun.row? 44 k := by
  have hpeer := peer_invalidation rereadingRun_prompt
  have hbegins : (rereadingRun.process false).Begins 35 1 (.int 1) := ⟨rfl, by decide +kernel⟩
  have hreads := hpeer.1 false 20 0 (.int 1) [true] 34 35 1 rereadingRun_changes rereadingRun_heardOf
    (by decide) hbegins
  refine ⟨rereadingRun_prompt, hreads, rereadingRun_settled, ?_⟩
  exact hpeer.2 rereadingRun_attends (fun _ => rfl) rereadingRun_observed 44 rereadingRun_settled

end ReadThrough.Fleet
