import Mathlib.Order.Interval.Finset.Nat
import ReadThrough.Proofs.Fleet.Step
import ReadThrough.Proofs.Invalidation.Message
import ReadThrough.Proofs.Service.Sources
/-!
# Runs of a fleet

To each of its processes a run of a fleet is a run of a service (`Run.process`), in which what is learned
is what the table has at that step (`Run.eq_row?_of_learns`).

The rest of the file follows a change from step to step: as long as an observer has not been told, its
notice is kept (`Run.told`); as long as an announcement has not been published, it is in the outbox
(`Run.posted`); as long as a listener has not heard what stands at a place of the bus, it has not come
beyond that place (`Run.heard`).
-/

namespace ReadThrough.Fleet

variable {ι ρ : Type} [DecidableEq ι] {F : Setup ι ρ}

/-- A run of a fleet from its start. -/
abbrev Run (F : Setup ι ρ) := ReadThrough.Run F.step F.fresh

namespace Run

variable (R : Run F)

/-- What a run of the fleet is to one of its processes. -/
def process (B : ι) : Service.Run (F.service B) where
  state n := (R.state n).services B
  event n := F.eventOf (R.state n) B (R.event n)
  start := by rw [R.start]; rfl
  next n := step_process (R.next n) B

/-- The row under a key at a step, or that there is none. -/
def row? (n : Nat) (k : Key) : Option ρ := (R.state n).table.get? k

/-! ## The table -/

theorem wellKeyed (n : Nat) : (R.state n).table.WellKeyed F.entity := by
  refine R.always (p := fun s => s.table.WellKeyed F.entity) (Table.wellKeyed_ofRows _ _) ?_ n
  intro s ev s' h hs
  rcases table_step h with hsame | ⟨observers, w, news, -, hw⟩
  · rw [hsame]
    exact hs
  · have hs' : ({ s.table with observers } : Table ρ ι).WellKeyed F.entity := hs
    exact hs'.of_write? hw

/-- A process hears of the store what the table has then, or that its time is up. -/
theorem of_store {B : ι} {n : Nat} {e : Service.Event ρ} (h : (R.process B).event n = e)
    (he : ofStore e = true) :
    (∃ g f, e = .settle g (.ok ((R.state n).table.findByIds f.batch.keys)) ∧
        ((R.state n).services B).loader.flight? g = some f) ∨
      (∃ g, e = .settle g (.error .timeout) ∧ (F.config B).fetchTimeout.isSome = true) ∨
      (∃ p o rows, e = .read p rows ∧ (R.state n).table.findMany F.entity o = .ok rows) := by
  subst h
  exact (within_of_store (R.next n) he).of_store he

/-- What a process learns of a row is what the table has at that step. -/
theorem eq_row?_of_learns {B : ι} {n : Nat} {k : Key} {v : Option ρ}
    (h : (R.process B).Learns n k v) : v = R.row? n k := by
  rcases h with ⟨b, rows, ⟨he, epoch, hf⟩, hk, rfl⟩ | ⟨p, rows, row, he, hrow, rfl, rfl⟩
  · rcases R.of_store he rfl with ⟨g, f, hset, hg⟩ | ⟨g, hset, -⟩ | ⟨p, o, rows', hset, -⟩
    · cases hset
      have hff : f = { batch := b, stage := .asked epoch } := Option.some.inj (hg.symm.trans hf)
      rw [hff]
      exact (R.wellKeyed n).found?_findByIds hk
    · cases hset
    · cases hset
  · rcases R.of_store he rfl with ⟨g, f, hset, -⟩ | ⟨g, hset, -⟩ | ⟨p', o, rows', hset, hfind⟩
    · cases hset
    · cases hset
    · cases hset
      exact ((R.wellKeyed n).get?_of_findMany hfind hrow).symm

/-- A store fails a process only by taking too long, and only if the process does not wait for ever. -/
theorem timeout_of_error {B : ι} {n g : Nat} {e : StoreError}
    (h : (R.process B).event n = .settle g (.error e)) :
    e = .timeout ∧ (F.config B).fetchTimeout.isSome = true := by
  rcases R.of_store h rfl with ⟨g', f, hset, -⟩ | ⟨g', hset, ht⟩ | ⟨p, o, rows, hset, -⟩
  · cases hset
  · cases hset
    exact ⟨rfl, ht⟩
  · cases hset

/-! ## Changes -/

/-- A row changes at a step. The change has a number, and observers who are to be told. -/
def Changes (i c : Nat) (k : Key) (observers : List ι) : Prop :=
  (R.state i).nextChange = c ∧ ∃ w table news, R.event i = .change observers w ∧
    w.key F.entity = k ∧ F.Writes (R.state i) observers w table news

/-- A change tells an observer at a step. -/
def Tells (j c : Nat) (notice : Notice ι) : Prop :=
  R.event j = .observe c ∧ ∃ news, (R.state j).changes.find? c = some (notice :: news)

variable {R}

/-- A change that the table accepts. -/
theorem Changes.of_event {i : Nat} {observers : List ι} {w : Write ρ}
    (he : R.event i = .change observers w)
    (hw : (({ (R.state i).table with observers } : Table ρ ι).write? F.entity w).isSome = true) :
    R.Changes i (R.state i).nextChange (w.key F.entity) observers := by
  obtain ⟨⟨table, news⟩, hw⟩ := Option.isSome_iff_exists.1 hw
  exact ⟨rfl, w, table, news, he, rfl, hw⟩

theorem Changes.next {i c : Nat} {k : Key} {observers : List ι} (h : R.Changes i c k observers) :
    (R.state (i + 1)).nextChange = c + 1 ∧ ∃ news, (R.state (i + 1)).changes.find? c = some news ∧
      ∀ A ∈ observers, ∃ notice ∈ news, F.IsFor notice A k := by
  obtain ⟨rfl, w, table, news, he, rfl, hw⟩ := h
  have hstep := R.next i
  have hw' : ({ (R.state i).table with observers } : Table ρ ι).write? F.entity w = some (table, news) := hw
  rw [he] at hstep
  simp only [Setup.step, hw', Option.some.injEq] at hstep
  rw [← hstep]
  refine ⟨rfl, news, by simp, fun A hA => ?_⟩
  obtain ⟨change, rfl⟩ := (Table.of_write? hw').1
  exact ⟨_, List.mem_map.2 ⟨A, hA, rfl⟩, rfl, rfl, rfl⟩

/-- Until an observer has been told of a change, the notice is kept. -/
theorem told {i c n : Nat} {k : Key} {observers : List ι} {A : ι} (h : R.Changes i c k observers)
    (hA : A ∈ observers) (hn : i < n) :
    (∃ news, (R.state n).changes.find? c = some news ∧ ∃ notice ∈ news, F.IsFor notice A k) ∨
      ∃ j notice, i < j ∧ j < n ∧ R.Tells j c notice ∧ F.IsFor notice A k := by
  obtain ⟨hnext, news, hnews, hmem⟩ := h.next
  induction n, (show i + 1 ≤ n from hn) using Nat.le_induction with
  | base => exact .inl ⟨news, hnews, hmem A hA⟩
  | succ n hin ih =>
    rcases ih hin with ⟨news, hnews, notice, hnotice, hfor⟩ | ⟨j, notice, hij, hjn, htell⟩
    · rcases changes_step (R.next n) c with
        hsame | ⟨-, -, -, -, -, -, hc, -⟩ | ⟨notice', news', he, hold, hnew⟩ | ⟨-, hold, -⟩
      · exact .inl ⟨news, hsame ▸ hnews, notice, hnotice, hfor⟩
      -- A change that begins later has a number of its own.
      · have hmono := R.mono (f := Fleet.nextChange) (fun _ _ _ => nextChange_step) hin
        omega
      · rw [hold] at hnews
        cases hnews
        rcases List.mem_cons.1 hnotice with rfl | hnotice
        · exact .inr ⟨n, notice, hin, Nat.lt_succ_self n, ⟨he, news', hold⟩, hfor⟩
        · exact .inl ⟨news', hnew, notice, hnotice, hfor⟩
      · rw [hold] at hnews
        cases hnews
        cases hnotice
    · exact .inr ⟨j, notice, hij, Nat.lt_succ_of_lt hjn, htell⟩

/-- An observer that is told invalidates its own cache. -/
theorem Tells.op {j c : Nat} {notice : Notice ι} {A : ι} {k : Key} (h : R.Tells j c notice)
    (hfor : F.IsFor notice A k) :
    (R.process A).history.op j = some (.delete F.entity.segment k) := by
  obtain ⟨he, news, hc⟩ := h
  show (F.service A).op? _ (F.eventOf (R.state j) A (R.event j)) = _
  rw [he]
  simp only [Setup.eventOf, hc]
  rw [if_pos hfor.observer, hfor.segment, hfor.key]
  rfl

/-! ## Announcements -/

variable (R) in
/-- What an observer has announced when it was told at `j` is published at `p`. -/
def Publishes (p j : Nat) : Prop := j < p ∧ R.event p = .publish (R.state j).nextPost

/-- Until an announcement is published it is in the outbox, and after that it is not. -/
theorem posted {j c n : Nat} {notice : Notice ι} (h : R.Tells j c notice)
    (hl : F.linked notice.observer = true) (hn : j < n) :
    ((∀ p < n, ¬ R.Publishes p j) ∧
        (R.state n).outbox.find? (R.state j).nextPost = some (F.payload notice)) ∨
      ((∃ p < n, R.Publishes p j) ∧ (R.state n).outbox.find? (R.state j).nextPost = none) := by
  obtain ⟨he, news, hc⟩ := h
  have hstep := R.next j
  rw [he] at hstep
  simp only [Setup.step, hc, hl, if_true, Option.some.injEq] at hstep
  have hpost : (R.state (j + 1)).nextPost = (R.state j).nextPost + 1 := by rw [← hstep]
  induction n, (show j + 1 ≤ n from hn) using Nat.le_induction with
  | base =>
    refine .inl ⟨fun p hp hpub => ?_, ?_⟩
    · have := hpub.1
      omega
    · rw [← hstep]
      simp [Setup.payload]
  | succ n hjn ih =>
    -- What is announced later has a number of its own, so it does not come in between.
    have hmono := R.mono (f := Fleet.nextPost) (fun _ _ _ => nextPost_step) hjn
    rcases outbox_step (R.next n) (R.state j).nextPost with
      ⟨hev, hsame⟩ | ⟨-, -, -, -, -, -, hm, -⟩ | ⟨hev, ⟨payload, hold⟩, hgone⟩
    · rcases ih hjn with ⟨hno, hkept⟩ | ⟨⟨p, hp, hpub⟩, hgone⟩
      · refine .inl ⟨fun p hp hpub => ?_, hsame ▸ hkept⟩
        rcases Nat.lt_or_eq_of_le (Nat.le_of_lt_succ hp) with hlt | rfl
        · exact hno p hlt hpub
        · exact hev hpub.2
      · exact .inr ⟨⟨p, Nat.lt_succ_of_lt hp, hpub⟩, hsame ▸ hgone⟩
    · omega
    · exact .inr ⟨⟨n, Nat.lt_succ_self n, hjn, hev⟩, hgone⟩

/-- What is published is what was announced. -/
theorem Publishes.payload {j c p : Nat} {notice : Notice ι} (h : R.Publishes p j)
    (ht : R.Tells j c notice) (hl : F.linked notice.observer = true) :
    (R.state p).outbox.find? (R.state j).nextPost = some (F.payload notice) := by
  rcases posted ht hl h.1 with ⟨-, hkept⟩ | ⟨-, hgone⟩
  · exact hkept
  · have hstep := R.next p
    rw [h.2] at hstep
    simp [Setup.step, hgone] at hstep

/-! ## The bus -/

theorem published_mono {n m : Nat} (h : n ≤ m) :
    (R.state n).bus.published ≤ (R.state m).bus.published := by
  refine R.mono (f := fun s => s.bus.published) (fun s ev s' hs => ?_) h
  rcases bus_step hs with hsame | ⟨m, payload, -, -, hpub⟩
  · rw [hsame]
  · rw [hpub]
    exact Nat.le_succ _

/-- Publishing takes a place of the bus that nobody else takes. -/
theorem published_lt {p m n : Nat} (h : R.event p = .publish m) (hpn : p < n) :
    (R.state p).bus.published < (R.state n).bus.published := by
  have hstep := R.next p
  rw [h] at hstep
  simp only [Setup.step, Option.map_eq_some_iff] at hstep
  obtain ⟨payload, -, hs⟩ := hstep
  have hnext : (R.state (p + 1)).bus.published = (R.state p).bus.published + 1 := by
    rw [← hs]
    rfl
  have := published_mono (R := R) (show p + 1 ≤ n from hpn)
  omega

theorem bus_sound (n : Nat) : (R.state n).bus.Sound := by
  refine R.always (p := fun s => s.bus.Sound) (Nat.le_refl 0) (fun s ev s' h hs => ?_) n
  rcases bus_step h with hsame | ⟨m, payload, -, -, hpub⟩
  · rw [hsame]
    exact hs
  · rw [hpub]
    exact hs.publish payload

/-- What stands at a place of the bus was published when the place was next. -/
theorem bus_source {n place : Nat} {payload : String} (h : (R.state n).bus.at? place = some payload) :
    ∃ p < n, ∃ m, R.event p = .publish m ∧ (R.state p).outbox.find? m = some payload ∧
      (R.state p).bus.published = place := by
  obtain ⟨p, hp, hbefore, hafter⟩ := R.gained (p := fun s => s.bus.at? place = some payload)
    (by simp [Setup.fresh, Bus.ofCapacity, Bus.at?]) h
  refine ⟨p, hp, ?_⟩
  rcases bus_step (R.next p) with hsame | ⟨m, payload', he, hm, hpub⟩
  · exact absurd (hsame ▸ hafter) hbefore
  · rw [hpub, (bus_sound p).at?_publish] at hafter
    -- The oldest payload is gone, the newest one is there, and the others have stayed.
    split at hafter
    · cases hafter
    · split at hafter
      · rename_i hplace
        cases hafter
        exact ⟨m, he, hm, hplace.symm⟩
      · exact absurd hafter hbefore

/-! ## Listeners -/

variable (R) in
/-- A process that listens hears what stands at a place of the bus, or that it has missed it. -/
def Hears (h : Nat) (B : ι) (place : Nat) : Prop :=
  R.event h = .hear B ∧ ∃ here item next, (R.state h).listeners B = some here ∧
    (R.state h).bus.receive here = some (item, next) ∧ here ≤ place ∧ place < next

/-- A process that hears something hears what stands at its place. -/
theorem Hears.of_event {h here : Nat} {B : ι} (he : R.event h = .hear B)
    (hl : (R.state h).listeners B = some here) : R.Hears h B here := by
  have hstep := R.next h
  rw [he] at hstep
  simp only [Setup.step, hl, Option.bind_some, Option.map_eq_some_iff] at hstep
  obtain ⟨⟨item, next⟩, hitem, -⟩ := hstep
  exact ⟨he, here, item, next, hl, hitem, Nat.le_refl _, Bus.lt_of_receive hitem⟩

/-- A process that listens goes on listening. -/
theorem listens {n m : Nat} {B : ι} (h : ((R.state n).listeners B).isSome = true) (hnm : n ≤ m) :
    ((R.state m).listeners B).isSome = true := by
  induction m, hnm using Nat.le_induction with
  | base => exact h
  | succ m hnm ih =>
    rcases listeners_step (R.next m) B with
      hsame | ⟨-, -, hnew⟩ | ⟨place, item, next, -, -, -, hnew⟩
    · rw [hsame]
      exact ih
    · rw [hnew]
      rfl
    · rw [hnew]
      rfl

/-- No listener is ahead of the bus. -/
theorem listeners_le {n here : Nat} {B : ι} (h : (R.state n).listeners B = some here) :
    here ≤ (R.state n).bus.published := by
  induction n generalizing here with
  | zero =>
    rw [R.start] at h
    cases h
  | succ n ih =>
    have hmono := published_mono (R := R) (Nat.le_succ n)
    rcases listeners_step (R.next n) B with
      hsame | ⟨-, -, hnew⟩ | ⟨place, item, next, -, hat, hitem, hnew⟩
    · exact Nat.le_trans (ih (hsame ▸ h)) hmono
    · rw [hnew] at h
      cases h
      exact hmono
    · rw [hnew] at h
      cases h
      exact Nat.le_trans ((bus_sound n).receive_le hitem) hmono

/-- A process that listens comes beyond a place of the bus only by hearing what stands there. -/
theorem heard {B : ι} {l n place first : Nat} (hl : (R.state l).listeners B = some first)
    (hplace : first ≤ place) (hn : l ≤ n) :
    (∃ now, (R.state n).listeners B = some now ∧ now ≤ place) ∨
      ∃ h, l ≤ h ∧ h < n ∧ R.Hears h B place := by
  induction n, hn using Nat.le_induction with
  | base => exact .inl ⟨first, hl, hplace⟩
  | succ n hln ih =>
    rcases ih with ⟨now, hnow, hle⟩ | ⟨h, hlh, hhn, hhears⟩
    · rcases listeners_step (R.next n) B with
        hsame | ⟨-, hnone, -⟩ | ⟨here, item, next, he, hat, hitem, hnew⟩
      · exact .inl ⟨now, hsame ▸ hnow, hle⟩
      · rw [hnone] at hnow
        cases hnow
      · rw [hat] at hnow
        cases hnow
        -- Whoever hears something may go beyond the place at once.
        by_cases hnext : next ≤ place
        · exact .inl ⟨next, hnew, hnext⟩
        · refine .inr ⟨n, hln, Nat.lt_succ_self n, he, now, item, next, hat, hitem, hle, ?_⟩
          exact Nat.lt_of_not_le hnext
    · exact .inr ⟨h, hlh, Nat.lt_succ_of_lt hhn, hhears⟩

/-- Who hears the announcement of another process, or that it has missed it, takes the row out of its
cache; and so do those who hear that they have missed something. -/
theorem Hears.removes {h p j c : Nat} {B A : ι} {k : Key} {notice : Notice ι}
    (hh : R.Hears h B (R.state p).bus.published) (hp : R.Publishes p j) (ht : R.Tells j c notice)
    (hfor : F.IsFor notice A k) (hl : F.linked A = true) (hAB : B ≠ A) :
    p < h ∧ ∃ op, (R.process B).history.op h = some op ∧
      op.removes F.entity.segment k = true := by
  obtain ⟨he, here, item, next, hat, hitem, hle, hlt⟩ := hh
  have hop : (R.process B).history.op h = Cache.heard? (F.id B) item := by
    show (F.service B).op? _ (F.eventOf (R.state h) B (R.event h)) = _
    rw [he]
    simp only [Setup.eventOf, if_true, hat, Option.bind_some, hitem, Option.map_some]
    cases Cache.heard? (ν := Held ρ) (F.id B) item <;> rfl
  rw [Bus.receive_eq] at hitem
  split at hitem
  · -- It has missed payloads, and trusts nothing any more.
    cases hitem
    have holdest : (R.state h).bus.oldest ≤ (R.state h).bus.published := Nat.sub_le _ _
    refine ⟨?_, .clearAll, hop, rfl⟩
    by_contra hph
    have := published_mono (R := R) (Nat.le_of_not_lt hph)
    omega
  · -- It hears the payload at its place, which is the one that was published there.
    obtain ⟨payload, hpayload, hpair⟩ := Option.map_eq_some_iff.1 hitem
    cases hpair
    have hplace : here = (R.state p).bus.published := by omega
    -- Nothing else was published at that place, and so the payload is the one that was announced.
    obtain ⟨p', hp', m, he', hm, hpub⟩ := bus_source hpayload
    have hpp : p' = p := by
      rcases Nat.lt_trichotomy p' p with hlt | heq | hgt
      · have := published_lt he' hlt
        omega
      · exact heq
      · have := published_lt hp.2 hgt
        omega
    subst hpp
    have hmm : m = (R.state j).nextPost := Event.publish.inj (he'.symm.trans hp.2)
    subst hmm
    rw [hp.payload ht (hfor.observer ▸ hl)] at hm
    cases hm
    refine ⟨hp', .delete F.entity.segment k, ?_, by simp [Cache.Op.removes]⟩
    rw [hop, Setup.payload, Cache.heard?, Message.decode?_encode]
    have hother : ¬ F.id notice.observer = F.id B := by
      rw [hfor.observer]
      exact fun e => hAB (F.id_injective _ _ e).symm
    simp [announcement, hother, hfor.segment, hfor.key]

end Run

end ReadThrough.Fleet
