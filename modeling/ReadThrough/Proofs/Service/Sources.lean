import ReadThrough.Proofs.Loader.Replies
import ReadThrough.Proofs.Service.Run
/-!
# Where answers come from

What a service knows of a row it has learned from the store (`Run.Learns`): from the answer to a batch or
with a page. This file follows what is learned to the callers of loads. A flight has asked the store at
the epoch that it remembers and has learned what it says (`Run.flight_source`); an entry of the cache has
been learned, and no invalidation has taken it away since (`Run.entry_source`). So a load hears of
something that has been learned after the load began, or that nothing has taken away from the cache
until then (`Run.answer_source`).

An epoch is two counters that come round after `2 ^ 64` invalidations. All this is for runs in which no
epoch is used so late (`Run.Prompt`).
-/

namespace ReadThrough.Service.Run

variable {ρ : Type} {u : Setup ρ} (R : Run u)

/-- The store is asked for the keys of a batch at a step, and answers. -/
def Hears (n : Nat) (b : Batch Nat) (answer : Except StoreError (List ρ)) : Prop :=
  R.event n = .settle b.generation answer ∧
    ∃ epoch, (R.state n).loader.flight? b.generation = some { batch := b, stage := .asked epoch }

/-- The service learns what there is under a key: from the answer to a batch with the key, or because a
page has a row with it. -/
def Learns (n : Nat) (k : Key) (v : Option ρ) : Prop :=
  (∃ b rows, R.Hears n b (.ok rows) ∧ k ∈ b.keys ∧ v = Flight.found? u.entity.key rows k) ∨
    ∃ p rows row, R.event n = .read p rows ∧ row ∈ rows ∧ u.entity.key row = k ∧ v = some row

/-- The store is asked at a step and heard at another, and says what there is under a key: to a batch with
the key, or with a page that has a row with it. -/
inductive Delivers (t q : Nat) (k : Key) (v : Option ρ) : Prop where
  | batch (b : Batch Nat) (rows : List ρ) (asked : R.event t = .ask b.generation)
      (heard : R.Hears q b (.ok rows)) (mem : k ∈ b.keys)
      (value : v = Flight.found? u.entity.key rows k)
  | page (p : Nat) (rows : List ρ) (row : ρ) (noted : R.event t = .note)
      (number : (R.state t).pageCount = p) (delivered : R.event q = .read p rows) (mem : row ∈ rows)
      (key : u.entity.key row = k) (value : v = some row)

/-- What the cache has under a key is not taken away from one step to another. -/
def Spares (t n : Nat) (k : Key) : Prop :=
  ∀ m, t ≤ m → m < n → ∀ op, R.history.op m = some op → op.removes u.entity.segment k = false

/-- An epoch is taken note of at a step and used at another. -/
inductive Uses (t n : Nat) : Prop where
  | batch (g : Nat) (asked : R.event t = .ask g) (used : R.event n = .write g)
  | page (p : Nat) (noted : R.event t = .note) (number : (R.state t).pageCount = p)
      (used : R.event n = .prime p)

/-- Every epoch is used before there have been `2 ^ 64` invalidations. -/
def Prompt : Prop :=
  ∀ t n, t ≤ n → R.Uses t n → R.history.invalidations u.entity.segment t n < 2 ^ 64

variable {R}

/-- What is delivered is learned. -/
theorem Delivers.learns {t q : Nat} {k : Key} {v : Option ρ} (h : R.Delivers t q k v) : R.Learns q k v := by
  cases h with
  | batch b rows asked heard mem value => exact .inl ⟨b, rows, heard, mem, value⟩
  | page p rows row noted number delivered mem key value =>
    exact .inr ⟨p, rows, row, delivered, mem, key, value⟩

theorem Spares.succ {t n : Nat} {k : Key} (h : R.Spares t n k)
    (hn : ∀ op, R.history.op n = some op → op.removes u.entity.segment k = false) :
    R.Spares t (n + 1) k := by
  intro m hm hmn op hop
  rcases Nat.lt_or_eq_of_le (Nat.le_of_lt_succ hmn) with hlt | rfl
  · exact h m hm hlt op hop
  · exact hn op hop

theorem Spares.not_removes {t m n : Nat} {k : Key} {op : Cache.Op (Held ρ)} (h : R.Spares t n k)
    (ht : t ≤ m) (hn : m < n) (hop : R.history.op m = some op)
    (hrem : op.removes u.entity.segment k = true) : False := by
  rw [h m ht hn op hop] at hrem
  cases hrem

/-- Where nothing is invalidated, nothing is taken away. -/
theorem spares_of_calm {t n : Nat} (h : R.history.Calm u.entity.segment t n) (k : Key) :
    R.Spares t n k := by
  intro m hm hmn op hop
  by_contra hr
  have hinv := Cache.Op.invalidates_of_removes (Bool.eq_true_of_not_eq_false hr)
  rw [h m hm hmn op hop] at hinv
  cases hinv

theorem Spares.mono {t t' n n' : Nat} {k : Key} (h : R.Spares t n k) (ht : t ≤ t') (hn : n' ≤ n) :
    R.Spares t' n' k :=
  fun m hm hmn => h m (Nat.le_trans ht hm) (Nat.lt_of_lt_of_le hmn hn)

/-! ## Flights -/

variable (R)

/-- What has brought a flight as far as it is. -/
def Explains (n : Nat) (f : Flight ρ Nat) : Prop :=
  match f.stage with
  | .closed => True
  | .asked epoch => ∃ t < n, R.event t = .ask f.generation ∧ R.epoch t = epoch
  | .answered epoch values unwritten => ∃ t q rows, t < q ∧ q < n ∧
      R.event t = .ask f.generation ∧ R.epoch t = epoch ∧ R.Hears q f.batch (.ok rows) ∧
      values = (f.batch.keys.map fun k => (k, Flight.found? u.entity.key rows k)) ∧
      unwritten <:+ values
  | .failed e => ∃ q < n, R.Hears q f.batch (.error e)

variable {R}

theorem Explains.succ {n : Nat} {f : Flight ρ Nat} (h : R.Explains n f) : R.Explains (n + 1) f := by
  obtain ⟨b, stage⟩ := f
  cases stage with
  | closed => trivial
  | asked epoch =>
    obtain ⟨t, ht, hrest⟩ := h
    exact ⟨t, Nat.lt_succ_of_lt ht, hrest⟩
  | answered epoch values unwritten =>
    obtain ⟨t, q, rows, htq, hq, hrest⟩ := h
    exact ⟨t, q, rows, htq, Nat.lt_succ_of_lt hq, hrest⟩
  | failed e =>
    obtain ⟨q, hq, hrest⟩ := h
    exact ⟨q, Nat.lt_succ_of_lt hq, hrest⟩

/-- A flight that goes on is explained by the step that it takes. -/
theorem Explains.advance {n : Nat} {f f' : Flight ρ Nat} (h : R.Explains n f)
    (hf : (R.state n).loader.flight? f.generation = some f)
    (ha : Advances u (R.state n) (R.event n) f f') : R.Explains (n + 1) f' := by
  generalize he : R.event n = ev at ha
  cases ha with
  | asked => exact ⟨n, Nat.lt_succ_self n, he, rfl⟩
  | answered =>
    obtain ⟨t, ht, hask, hepoch⟩ := h
    refine ⟨t, n, _, ht, Nat.lt_succ_self n, hask, hepoch, ⟨he, _, hf⟩, rfl, ?_⟩
    -- All that the store has said is to be written, or nothing with the cache off.
    split
    · exact List.suffix_refl _
    · exact List.nil_suffix
  | failed => exact ⟨n, Nat.lt_succ_self n, he, _, hf⟩
  | written =>
    obtain ⟨t, q, rows, htq, hq, hask, hepoch, hhears, hvalues, hsuffix⟩ := h
    refine ⟨t, q, rows, htq, Nat.lt_succ_of_lt hq, hask, hepoch, hhears, hvalues, ?_⟩
    exact (List.suffix_cons _ _).trans hsuffix

variable (R)

theorem flight_source {n g : Nat} {f : Flight ρ Nat} (h : (R.state n).loader.flight? g = some f) :
    R.Explains n f := by
  induction n generalizing f with
  | zero =>
    rw [R.start] at h
    cases h
  | succ n ih =>
    rcases flight_step (R.numbered n) (R.next n) g with
      hsame | ⟨b, -, -, -, hnew⟩ | ⟨f₀, f', hf₀, hadv, hnew⟩ | ⟨-, -, hgone⟩
    · exact (ih (hsame ▸ h)).succ
    · rw [hnew] at h
      cases h
      trivial
    · rw [hnew] at h
      cases h
      obtain ⟨-, rfl⟩ := Loader.mem_flights_of_flight? hf₀
      exact (ih hf₀).advance hf₀ hadv
    · rw [hgone] at h
      cases h

/-- The store that answers has been asked. -/
theorem Hears.asked {q : Nat} {b : Batch Nat} {answer : Except StoreError (List ρ)}
    (h : R.Hears q b answer) : ∃ t < q, R.event t = .ask b.generation := by
  obtain ⟨-, epoch, hf⟩ := h
  obtain ⟨t, ht, hask, -⟩ := R.flight_source hf
  exact ⟨t, ht, hask⟩

/-! ## Pages -/

/-- A page remembers the epoch at which it was noted, and its rows have been delivered since. -/
theorem page_source {n p : Nat} {epoch : Epoch} {rows : Option (List ρ)}
    (h : (R.state n).pages.find? p = some { epoch, rows }) :
    ∃ t < n, R.event t = .note ∧ (R.state t).pageCount = p ∧ R.epoch t = epoch ∧
      ∀ rest, rows = some rest → ∃ q all, t < q ∧ q < n ∧ R.event q = .read p all ∧ rest <:+ all := by
  induction n generalizing epoch rows with
  | zero =>
    rw [R.start] at h
    cases h
  | succ n ih =>
    rcases page_step (R.next n) p with
      hsame | ⟨he, hp, hnew⟩ | ⟨epoch', rows', he, hold, hnew⟩ | ⟨epoch', row, rows', he, hold, hnew⟩ |
      ⟨-, hgone⟩
    · obtain ⟨t, ht, hnote, hcount, hepoch, hrows⟩ := ih (hsame ▸ h)
      refine ⟨t, Nat.lt_succ_of_lt ht, hnote, hcount, hepoch, fun rest hrest => ?_⟩
      obtain ⟨q, all, htq, hq, hread, hsuffix⟩ := hrows rest hrest
      exact ⟨q, all, htq, Nat.lt_succ_of_lt hq, hread, hsuffix⟩
    · rw [hnew] at h
      cases h
      exact ⟨n, Nat.lt_succ_self n, he, hp.symm, rfl, nofun⟩
    · rw [hnew] at h
      cases h
      obtain ⟨t, ht, hnote, hcount, hepoch, -⟩ := ih hold
      refine ⟨t, Nat.lt_succ_of_lt ht, hnote, hcount, hepoch, fun rest hrest => ?_⟩
      cases hrest
      exact ⟨n, _, ht, Nat.lt_succ_self n, he, List.suffix_refl _⟩
    · rw [hnew] at h
      cases h
      obtain ⟨t, ht, hnote, hcount, hepoch, hrows⟩ := ih hold
      obtain ⟨q, all, htq, hq, hread, hsuffix⟩ := hrows _ rfl
      refine ⟨t, Nat.lt_succ_of_lt ht, hnote, hcount, hepoch, fun rest hrest => ?_⟩
      cases hrest
      exact ⟨q, all, htq, Nat.lt_succ_of_lt hq, hread, (List.suffix_cons _ _).trans hsuffix⟩
    · rw [hgone] at h
      cases h

/-! ## Entries -/

/-- What is put into the cache under a key was delivered by the store, which was asked when the epoch was
taken under which it is stored. -/
def Brings (n : Nat) (k : Key) (v : Held ρ) (op : Cache.Op (Held ρ)) : Prop :=
  ∃ t q, R.Uses t n ∧ t < q ∧ q < n ∧ R.Delivers t q k v.row ∧
    op = .setIfCurrent u.entity.segment k v (R.epoch t)

theorem brings_of_write {n g : Nat} {k : Key} {v : Held ρ} {op : Cache.Op (Held ρ)}
    (he : R.event n = .write g) (hop : u.op? (R.state n) (.write g) = some op)
    (hs : op.stores? u.entity.segment k = some v) : R.Brings n k v op := by
  obtain ⟨b, epoch, values, k', row, unwritten, hf⟩ := flight_of_write (he ▸ R.next n)
  obtain ⟨t, q, rows, htq, hqn, hask, rfl, hhears, hvalues, hsuffix⟩ := R.flight_source hf
  have hg : b.generation = g := (Loader.mem_flights_of_flight? hf).2
  simp only [Setup.op?, Loader.write?, hf, Option.map_some, Option.some.injEq] at hop
  subst hop
  simp only [Cache.Op.stores?, true_and] at hs
  split at hs
  · rename_i hk
    subst hk
    cases hs
    -- What is still to be written is a part of what the store has said.
    have hmem : (k', row) ∈ values := hsuffix.mem List.mem_cons_self
    rw [hvalues] at hmem
    obtain ⟨k, hk, hpair⟩ := List.mem_map.1 hmem
    cases hpair
    exact ⟨t, q, .batch g (hg ▸ hask) he, htq, hqn, .batch b rows hask hhears hk rfl, rfl⟩
  · cases hs

theorem brings_of_prime {n p : Nat} {k : Key} {v : Held ρ} {op : Cache.Op (Held ρ)}
    (he : R.event n = .prime p) (hop : u.op? (R.state n) (.prime p) = some op)
    (hs : op.stores? u.entity.segment k = some v) : R.Brings n k v op := by
  simp only [Setup.op?] at hop
  split at hop
  · rename_i epoch row rows hp
    obtain ⟨t, ht, hnote, hcount, rfl, hrows⟩ := R.page_source hp
    obtain ⟨q, all, htq, hqn, hread, hsuffix⟩ := hrows _ rfl
    split at hop
    · cases hop
      simp only [Cache.Op.stores?, true_and] at hs
      split at hs
      · rename_i hk
        subst hk
        cases hs
        have hrow : row ∈ all := hsuffix.mem List.mem_cons_self
        exact ⟨t, q, .page p hnote hcount he, htq, hqn,
          .page p all row hnote hcount hread hrow rfl rfl, rfl⟩
      · cases hs
    · cases hop
  · cases hop

/-- What others put into the cache is not a row of the service. -/
theorem not_stores_of_touch {n : Nat} {k : Key} {v : Held ρ} {op : Cache.Op (Held ρ)}
    (he : R.event n = .touch op) (hs : op.stores? u.entity.segment k = some v) :
    v.kind ≠ u.entity.kind := by
  intro hv
  have hkeeps : keeps u.entity op = true := by
    cases op with
    | set s k' v | setIfCurrent s k' v epoch =>
      simp only [Cache.Op.stores?] at hs
      split at hs
      · rename_i hsk
        cases hs
        exact decide_eq_true ⟨hsk.1, hv⟩
      · cases hs
    | get | delete | clearSegment | clearAll | purge => cases hs
  rw [keeps_of_touch (he ▸ R.next n)] at hkeeps
  cases hkeeps

/-- What is put into the cache for the service is on its way from the store. -/
theorem store_source {n : Nat} {k : Key} {v : Held ρ} {op : Cache.Op (Held ρ)}
    (hop : u.op? (R.state n) (R.event n) = some op)
    (hs : op.stores? u.entity.segment k = some v) (hv : v.kind = u.entity.kind) :
    R.Brings n k v op := by
  cases he : R.event n with
  | write g => exact R.brings_of_write he (he ▸ hop) hs
  | prime p => exact R.brings_of_prime he (he ▸ hop) hs
  | touch op' =>
    rw [he] at hop
    cases hop
    exact absurd hv (R.not_stores_of_touch he hs)
  | begin k' =>
    rw [he] at hop
    simp only [Setup.op?] at hop
    split at hop
    · cases hop
      cases hs
    · cases hop
  | join | drop | sleep | fire | ask | settle | reply | note | read | close | pass =>
    rw [he] at hop
    cases hop

variable {R}

/-- What the cache holds of the service's rows has been learned, and nothing has taken it away since. -/
theorem entry_source (hP : R.Prompt) {n : Nat} {k : Key} {x : Entry (Held ρ)}
    (h : (R.state n).cache.find? u.entity.segment k = some x) (hx : x.value.kind = u.entity.kind) :
    ∃ q < n, R.Learns q k x.value.row ∧ R.Spares q n k := by
  induction n with
  | zero =>
    rw [R.start] at h
    cases h
  | succ n ih =>
    have before : (R.state n).cache.find? u.entity.segment k = some x →
        (∀ op, R.history.op n = some op → op.removes u.entity.segment k = false) →
        ∃ q < n + 1, R.Learns q k x.value.row ∧ R.Spares q (n + 1) k := by
      intro hn hop
      obtain ⟨q, hq, hlearns, hspares⟩ := ih hn
      exact ⟨q, Nat.lt_succ_of_lt hq, hlearns, hspares.succ hop⟩
    rw [show (R.state (n + 1)).cache = _ from R.history.next n] at h
    cases hop : R.history.op n with
    | none =>
      rw [hop] at h
      exact before h (by simp [hop])
    | some op =>
      rw [hop] at h
      rcases Cache.find?_apply h with ⟨h, hkeep⟩ | hstore
      · exact before h (by simpa [hop] using hkeep)
      · obtain ⟨t, q, huse, htq, hqn, hdelivers, rfl⟩ := R.store_source hop hstore hx
        have hkeep : ∀ op, R.history.op n = some op → op.removes u.entity.segment k = false := by
          simp [hop, Cache.Op.removes]
        rcases Cache.find?_setIfCurrent h with h | ⟨-, -, -, hepoch⟩
        · exact before h hkeep
        · -- The epoch is what it was at `t`, so nothing has been invalidated since.
          have htn := Nat.le_of_lt (Nat.lt_trans htq hqn)
          have hcalm := R.history.calm_of_epoch_eq _ htn (hP t n htn huse) hepoch
          have hspares := (spares_of_calm hcalm k).mono (Nat.le_of_lt htq) (Nat.le_refl n)
          exact ⟨q, Nat.lt_succ_of_lt hqn, hdelivers.learns, hspares.succ hkeep⟩

/-- A run is prompt if nothing is written to the cache after so many steps, and those are few. -/
theorem Prompt.of_quiet {N : Nat} (hN : N ≤ 2 ^ 64)
    (hquiet : ∀ n, N ≤ n → (∀ g, R.event n ≠ .write g) ∧ ∀ p, R.event n ≠ .prime p) :
    R.Prompt := by
  intro t n htn huse
  have hn : n < N := by
    by_contra hle
    obtain ⟨hwrite, hprime⟩ := hquiet n (Nat.le_of_not_lt hle)
    cases huse with
    | batch g _ used => exact hwrite g used
    | page p _ _ used => exact hprime p used
  have hle := R.history.invalidations_le u.entity.segment t n
  omega

/-! ## Answers -/

variable (R) in
/-- When a batch answers, those who wait for it are told what the store has said to the batch of their
keys, and nobody is told twice. -/
theorem reply_source {n g : Nat} (he : R.event n = .reply g) :
    ∃ q b answer, q < n ∧ b.generation = g ∧ R.Hears q b answer ∧
      (R.state n).loader.batch? g = some b ∧
      (∀ l x, (l, x) ∈ ((R.state n).loader.reply g).1 ↔
        ∃ k, (k, l) ∈ b.waiting ∧ x = Flight.result u.entity.key answer k) ∧
      ((b.waiting.map Prod.snd).Nodup → (((R.state n).loader.reply g).1.map Prod.fst).Nodup) := by
  have hstep := R.next n
  rw [he] at hstep
  obtain ⟨⟨b, stage⟩, hf, hended⟩ := flight_of_reply hstep
  have hg : b.generation = g := (Loader.mem_flights_of_flight? hf).2
  have hbatch := Loader.batch?_of_flight? (R.numbered n) hf
  have hreply : ((R.state n).loader.reply g).1 = ({ batch := b, stage } : Flight ρ Nat).replies := by
    rw [Loader.reply, hf]
  have hsource := R.flight_source hf
  cases stage with
  | closed | asked => cases hended
  | answered epoch values unwritten =>
    cases unwritten with
    | cons => cases hended
    | nil =>
      obtain ⟨t, q, rows, -, hqn, -, -, hhears, hvalues, -⟩ := hsource
      obtain rfl : values = b.keys.map _ := hvalues
      rw [hreply]
      exact ⟨q, b, .ok rows, hqn, hg, hhears, hbatch, fun _ _ => Flight.mem_replies_answered,
        Flight.nodup_replies_answered⟩
  | failed e =>
    obtain ⟨q, hqn, hhears⟩ := hsource
    rw [hreply]
    exact ⟨q, b, .error e, hqn, hg, hhears, hbatch, fun _ _ => Flight.mem_replies_failed,
      Flight.nodup_replies_failed⟩

/-- Where the answer to a load comes from. It has been learned while the load went on; or before, but
then the cache kept it until the load began; or the store has failed while the load went on. -/
theorem answer_source (hP : R.Prompt) {b r l : Nat} {k : Key} {x : Loaded ρ} (hb : R.Begins b l k)
    (hr : R.Answers r l x) :
    b ≤ r ∧ ((∃ q v, q < r ∧ x = .ok v ∧ R.Learns q k v ∧ (b < q ∨ q < b ∧ R.Spares q b k)) ∨
      ∃ q g e, b < q ∧ q < r ∧ x = .error e ∧ R.event q = .settle g (.error e)) := by
  have hin : (l, x) ∈ u.answers (R.state r) (R.event r) := hr
  cases he : R.event r with
  | begin k' =>
    rw [he] at hin
    simp only [Setup.answers] at hin
    cases hk : (u.look (R.state r) k').1 with
    | none =>
      rw [hk] at hin
      cases hin
    | some v =>
      rw [hk] at hin
      obtain ⟨rfl, rfl⟩ := Prod.mk.inj (List.mem_singleton.1 hin)
      -- The cache has answered at once.
      obtain ⟨rfl, rfl⟩ := hb.unique ⟨he, rfl⟩
      obtain ⟨y, hy, hyv⟩ := find?_of_look hk
      obtain ⟨q, hq, hlearns, hspares⟩ := entry_source hP hy (by rw [hyv])
      rw [hyv] at hlearns
      exact ⟨Nat.le_refl b, .inl ⟨q, v, hq, rfl, hlearns, .inr ⟨hq, hspares⟩⟩⟩
  | reply g =>
    rw [he] at hin
    obtain ⟨q, batch, answer, hq, hg, hhears, -, htold, -⟩ := R.reply_source he
    obtain ⟨k', hw, rfl⟩ := (htold l x).1 (List.mem_filter.1 hin).1
    -- The load waited in the batch already when the store was heard.
    obtain ⟨epoch, hf⟩ := hhears.2
    have hbatch := Loader.batch?_of_flight? (R.numbered q) hf
    obtain ⟨b', hb', hbegin, -⟩ := R.began_of_waiting hbatch hw
    obtain ⟨rfl, rfl⟩ := hb.unique hbegin
    refine ⟨Nat.le_of_lt (Nat.lt_trans hb' hq), ?_⟩
    cases answer with
    | ok rows =>
      refine .inl ⟨q, _, hq, rfl, .inl ⟨batch, rows, hhears, ?_, rfl⟩, .inl hb'⟩
      exact Batch.mem_keys.2 ⟨l, hw⟩
    | error e => exact .inr ⟨q, batch.generation, e, hb', hq, rfl, hhears.1⟩
  | join | drop | sleep | fire | ask | settle | write | note | read | prime | close | touch
  | pass =>
    rw [he] at hin
    cases hin

end ReadThrough.Service.Run
