import Mathlib.Order.Monotone.Basic
import ReadThrough.Proofs.Cache.History
import ReadThrough.Proofs.Cache.Size
/-!
# Caches as maps that expire on the spot

An expired entry stays in a cache until somebody asks for it or the cache is purged. Nobody can tell: what
is read is what was stored last, as long as it was stored less than the time to live ago and nobody has
taken it away (`Lifetime.refines`). Only the number of entries, and what deleting says, tell of expired
entries that are still there.

What one thing does to the entry under a key is said once (`Cache.find?_apply_eq`). From it follows by
induction which entry a cache has after all that has been done to it (`Lifetime.find?_eq_some_iff`), and
everything else from that.
-/

namespace ReadThrough.Cache

variable {ν α : Type}

/-! ## One step -/

namespace Op

/-- Whether a value that is to be stored is stored: under an epoch, only while the epoch is that of the
cache. -/
def takes (c : Cache ν) : Op ν → Bool
  | .setIfCurrent s _ _ epoch => c.isCurrent s epoch
  | _ => true

/-- The value that something stores under a key of a segment. -/
def stored? (c : Cache ν) (segment : String) (k : Key) (op : Op ν) : Option ν :=
  if op.takes c then op.stores? segment k else none

/-- Whether something lets go of what is under a key of a segment if that is expired. -/
def sweeps (segment : String) (k : Key) : Op ν → Bool
  | .get s k' => s = segment ∧ k' = k
  | .purge => true
  | _ => false

/-- Whether something only reads or only lets go of what is expired. -/
def quiet : Op ν → Bool
  | .get _ _ | .purge => true
  | _ => false

theorem not_quiet_of_invalidates {segment : String} {op : Op ν} (h : op.invalidates segment = true) :
    op.quiet = false := by
  cases op with
  | get | purge => cases h
  | set | setIfCurrent | delete | clearSegment | clearAll => rfl

end Op

theorem ttl_apply (op : Op ν) (now : Nat) (c : Cache ν) : (op.apply now c).ttl = c.ttl := by
  cases op with
  | get s k =>
    show (c.get now s k some).2.ttl = _
    unfold get
    split
    · rfl
    · split <;> rfl
  | setIfCurrent s k v epoch =>
    show (c.setIfCurrent now s k v epoch).2.ttl = _
    unfold setIfCurrent
    split <;> rfl
  | set | delete | clearSegment | clearAll | purge => rfl

/-- What something does to the entry under a key: it replaces the entry, takes it away, lets go of it if it
is expired, or leaves it as it is. -/
theorem find?_apply_eq (op : Op ν) (now : Nat) (c : Cache ν) (segment : String) (k : Key) :
    (op.apply now c).find? segment k = (op.stored? c segment k).elim
      (if op.removes segment k then none
        else if op.sweeps segment k then (c.find? segment k).filter fun x => !x.expired now
        else c.find? segment k)
      fun v => some { value := v, expires := now + c.ttl.toNat } := by
  have hplace : ∀ s k', (s = segment ∧ k' = k) ↔ (segment = s ∧ k = k') := fun s k' =>
    ⟨fun h => ⟨h.1.symm, h.2.symm⟩, fun h => ⟨h.1.symm, h.2.symm⟩⟩
  cases op with
  | get s k' =>
    simp only [Op.apply, find?_get, Op.stored?, Op.takes, Op.stores?, Op.removes, Op.sweeps,
      hplace s k', decide_eq_true_eq]
    rfl
  | set s k' v =>
    simp only [Op.apply, find?_set, Op.stored?, Op.takes, Op.stores?, Op.removes, Op.sweeps,
      hplace s k', if_true]
    split <;> rfl
  | setIfCurrent s k' v epoch =>
    simp only [Op.apply, setIfCurrent, Op.stored?, Op.takes, Op.stores?, Op.removes, Op.sweeps,
      hplace s k']
    split
    · rw [find?_set]
      split <;> rfl
    · rfl
  | delete s k' =>
    simp only [Op.apply, find?_delete, Op.stored?, Op.takes, Op.stores?, Op.removes, Op.sweeps,
      hplace s k', decide_eq_true_eq]
    rfl
  | clearSegment s =>
    simp only [Op.apply, find?_clearSegment, Op.stored?, Op.takes, Op.stores?, Op.removes, Op.sweeps,
      decide_eq_true_eq, eq_comm (a := s)]
    rfl
  | clearAll =>
    rw [Op.apply, find?_clearAll]
    rfl
  | purge =>
    rw [Op.apply, find?_purge]
    rfl

/-- What is taken away is gone, whatever it was. -/
theorem find?_of_removes {op : Op ν} {now : Nat} {c : Cache ν} {segment : String} {k : Key}
    (h : op.removes segment k = true) : (op.apply now c).find? segment k = none := by
  rw [find?_apply_eq, if_pos h]
  cases op with
  | delete | clearSegment | clearAll => rfl
  | get | set | setIfCurrent | purge => cases h

/-- What is read is the value of the entry, unless that is expired or of another kind. -/
theorem get_fst (c : Cache ν) (now : Nat) (segment : String) (k : Key) (read : ν → Option α) :
    (c.get now segment k read).1 =
      ((c.find? segment k).filter fun x => !x.expired now).bind fun x => read x.value := by
  unfold get
  cases c.find? segment k with
  | none => rfl
  | some x => cases hx : x.expired now <;> simp [hx, Option.filter]

/-- Reading a value that is not expired leaves the cache as it is, whatever is made of the value. -/
theorem get_of_not_expired {c : Cache ν} {now : Nat} {segment : String} {k : Key} {x : Entry ν}
    (hx : c.find? segment k = some x) (he : x.expired now = false) (read : ν → Option α) :
    c.get now segment k read = (read x.value, c) := by
  simp [get, hx, he]

/-! ## Histories -/

namespace History

variable (h : History ν) (segment : String) (k : Key)

/-- The value that is stored under a key at a step. -/
def stored? (n : Nat) : Option ν := (h.op n).bind fun op => op.stored? (h.cache n) segment k

/-- A value is stored under a key at step `m`, and until step `n` nothing else is stored there, and nobody
takes it away. -/
structure Kept (m n : Nat) (v : ν) : Prop where
  lt : m < n
  stored : h.stored? segment k m = some v
  alone : ∀ i, m < i → i < n →
    h.stored? segment k i = none ∧ h.does (Op.removes segment k) i = false

variable {h segment k}

/-- One step of what is kept. -/
theorem kept_succ {m n : Nat} {v : ν} : h.Kept segment k m (n + 1) v ↔
    (m = n ∧ h.stored? segment k n = some v) ∨
      (h.Kept segment k m n v ∧ h.stored? segment k n = none ∧
        h.does (Op.removes segment k) n = false) := by
  constructor
  · rintro ⟨hlt, hstored, halone⟩
    rcases Nat.lt_or_eq_of_le (Nat.le_of_lt_succ hlt) with hlt | rfl
    · exact .inr ⟨⟨hlt, hstored, fun i hm hn => halone i hm (Nat.lt_succ_of_lt hn)⟩,
        halone n hlt (Nat.lt_succ_self n)⟩
    · exact .inl ⟨rfl, hstored⟩
  · rintro (⟨rfl, hstored⟩ | ⟨hkept, hn⟩)
    · exact ⟨Nat.lt_succ_self m, hstored, fun i hm hi => absurd hi (by omega)⟩
    · refine ⟨Nat.lt_succ_of_lt hkept.lt, hkept.stored, fun i hm hi => ?_⟩
      rcases Nat.lt_or_eq_of_le (Nat.le_of_lt_succ hi) with hi | rfl
      · exact hkept.alone i hm hi
      · exact hn

/-- Something is kept from a step on at which something is stored, as long as nobody takes it away: what was
stored then, or what has been stored since. -/
theorem exists_kept {w n : Nat} {v : ν} (hstored : h.stored? segment k w = some v) (hwn : w < n)
    (hspared : ∀ i, w < i → i < n → h.does (Op.removes segment k) i = false) :
    ∃ m v', w ≤ m ∧ h.Kept segment k m n v' := by
  induction n, (show w + 1 ≤ n from hwn) using Nat.le_induction with
  | base => exact ⟨w, v, Nat.le_refl w, kept_succ.2 (.inl ⟨rfl, hstored⟩)⟩
  | succ n hwn' ih =>
    cases hn : h.stored? segment k n with
    | some v' => exact ⟨n, v', Nat.le_of_succ_le hwn', kept_succ.2 (.inl ⟨rfl, hn⟩)⟩
    | none =>
      obtain ⟨m, v', hwm, hkept⟩ := ih hwn' fun i hi hin => hspared i hi (Nat.lt_succ_of_lt hin)
      exact ⟨m, v', hwm, kept_succ.2 (.inr ⟨hkept, hn, hspared n hwn' (Nat.lt_succ_self n)⟩)⟩

/-- One step of what is found. -/
theorem find?_succ (n : Nat) : (h.cache (n + 1)).find? segment k = (h.stored? segment k n).elim
    (if h.does (Op.removes segment k) n then none
      else if h.does (Op.sweeps segment k) n then
        ((h.cache n).find? segment k).filter fun x => !x.expired (h.clock n)
      else (h.cache n).find? segment k)
    fun v => some { value := v, expires := h.clock n + (h.cache n).ttl.toNat } := by
  rw [h.next, stored?, does, does]
  cases h.op n with
  | none => rfl
  | some op => exact find?_apply_eq op _ _ _ _

end History

/-! ## Lifetimes -/

/-- All that is done to a cache from its making on: it begins empty, and time does not go back. -/
structure Lifetime (ν : Type) extends History ν where
  ttl : UInt64
  fresh : cache 0 = { ttl }
  mono : Monotone clock

namespace Lifetime

variable (l : Lifetime ν) (segment : String) (k : Key)

/-- The lifetime of a cache to which given things are done, with waits in between. -/
def ofOps (ttl : UInt64) (waits : Nat → Nat) (op : Nat → Option (Op ν)) : Lifetime ν where
  clock n := n.rec 0 fun n now => now + waits n
  op := op
  cache n := n.rec { ttl } fun n c =>
    (op n).elim c fun op => op.apply (n.rec 0 fun n now => now + waits n) c
  next _ := rfl
  ttl := ttl
  fresh := rfl
  mono := monotone_nat_of_le_succ fun _ => Nat.le_add_right _ _

/-- A value that was stored at step `m` has been there for less than the time to live whenever somebody
asked for it or purged the cache, until step `n`. -/
def Unswept (m n : Nat) : Prop :=
  ∀ i, m < i → i < n → l.does (Op.sweeps segment k) i = true →
    l.clock i < l.clock m + l.ttl.toNat

/-- At step `n` a value is there in the eyes of a reader: it was stored last, less than the time to live
ago, and nobody has taken it away. -/
def Live (n : Nat) (v : ν) : Prop :=
  ∃ m, l.Kept segment k m n v ∧ l.clock n < l.clock m + l.ttl.toNat

/-- At step `n` an entry is there, expired or not: a value was stored last, nobody has taken it away, and
it was not expired when somebody could have let go of it. -/
def Present (n : Nat) : Prop := ∃ m v, l.Kept segment k m n v ∧ l.Unswept segment k m n

/-- Two caches live alike: the same is done to them at the same times, but for reading and purging. -/
structure Alike (l l' : Lifetime ν) : Prop where
  ttl : l.ttl = l'.ttl
  clock : l.clock = l'.clock
  op : ∀ n, (l.op n).filter (!·.quiet) = (l'.op n).filter (!·.quiet)

variable {l segment k} {n : Nat}

theorem ttl_cache (l : Lifetime ν) (n : Nat) : (l.cache n).ttl = l.ttl := by
  induction n with
  | zero => rw [l.fresh]
  | succ n ih =>
    rw [l.next]
    cases l.op n with
    | none => exact ih
    | some op => exact (ttl_apply op _ _).trans ih

/-! ### What is found -/

theorem unswept_succ {m : Nat} (h : m < n) : l.Unswept segment k m (n + 1) ↔
    l.Unswept segment k m n ∧
      (l.does (Op.sweeps segment k) n = true → l.clock n < l.clock m + l.ttl.toNat) := by
  constructor
  · exact fun hu => ⟨fun i hm hn => hu i hm (Nat.lt_succ_of_lt hn), hu n h (Nat.lt_succ_self n)⟩
  · rintro ⟨hu, hn⟩ i hm hi
    rcases Nat.lt_or_eq_of_le (Nat.le_of_lt_succ hi) with hi | rfl
    · exact hu i hm hi
    · exact hn

/-- The entry under a key: the value that was stored last, unless somebody has taken it away or has let go
of it. -/
theorem find?_eq_some_iff {x : Entry ν} : (l.cache n).find? segment k = some x ↔
    ∃ m, l.Kept segment k m n x.value ∧ l.Unswept segment k m n ∧
      x.expires = l.clock m + l.ttl.toNat := by
  induction n with
  | zero =>
    rw [l.fresh]
    exact ⟨nofun, fun ⟨m, hkept, _⟩ => absurd hkept.lt (Nat.not_lt_zero m)⟩
  | succ n ih =>
    rw [History.find?_succ, l.ttl_cache]
    cases hstored : l.stored? segment k n with
    | some v =>
      -- What is stored now is what is found, and what was there before counts no longer.
      constructor
      · rintro ⟨⟩
        exact ⟨n, History.kept_succ.2 (.inl ⟨rfl, hstored⟩),
          fun i hm hi => absurd hi (by omega), rfl⟩
      · rintro ⟨m, hkept, -, hexpires⟩
        rcases History.kept_succ.1 hkept with ⟨rfl, hv⟩ | ⟨-, hnone, -⟩
        · rw [hstored] at hv
          rw [Option.elim_some, Option.some.inj hv, ← hexpires]
        · rw [hstored] at hnone
          cases hnone
    | none =>
      have hkept : ∀ m v, l.Kept segment k m (n + 1) v ↔
          l.Kept segment k m n v ∧ l.does (Op.removes segment k) n = false := by
        intro m v
        rw [History.kept_succ, hstored]
        exact ⟨fun h => h.elim (fun h => nomatch h.2) fun h => ⟨h.1, h.2.2⟩,
          fun h => .inr ⟨h.1, rfl, h.2⟩⟩
      simp only [Option.elim_none, hkept]
      by_cases hremoved : l.does (Op.removes segment k) n = true
      · rw [if_pos hremoved, hremoved]
        exact ⟨nofun, fun ⟨_, hm, _⟩ => nomatch hm.2⟩
      rw [if_neg hremoved]
      have hremoved : l.does (Op.removes segment k) n = false := Bool.eq_false_of_not_eq_true hremoved
      by_cases hswept : l.does (Op.sweeps segment k) n = true
      · rw [if_pos hswept, Option.filter_eq_some_iff, ih]
        constructor
        · rintro ⟨⟨m, hm, hunswept, hexpires⟩, hlive⟩
          refine ⟨m, ⟨hm, hremoved⟩, (unswept_succ hm.lt).2 ⟨hunswept, fun _ => ?_⟩, hexpires⟩
          simpa [Entry.expired, hexpires] using hlive
        · rintro ⟨m, ⟨hm, -⟩, hunswept, hexpires⟩
          obtain ⟨hunswept, hlive⟩ := (unswept_succ hm.lt).1 hunswept
          refine ⟨⟨m, hm, hunswept, hexpires⟩, ?_⟩
          simpa [Entry.expired, hexpires] using hlive hswept
      · rw [if_neg hswept, ih]
        constructor
        · rintro ⟨m, hm, hunswept, hexpires⟩
          exact ⟨m, ⟨hm, hremoved⟩, (unswept_succ hm.lt).2 ⟨hunswept, fun h => absurd h hswept⟩,
            hexpires⟩
        · rintro ⟨m, ⟨hm, -⟩, hunswept, hexpires⟩
          exact ⟨m, hm, ((unswept_succ hm.lt).1 hunswept).1, hexpires⟩

theorem present_iff : l.Present segment k n ↔ ((l.cache n).find? segment k).isSome = true := by
  rw [Option.isSome_iff_exists]
  constructor
  · rintro ⟨m, v, hkept, hunswept⟩
    exact ⟨{ value := v, expires := l.clock m + l.ttl.toNat },
      find?_eq_some_iff.2 ⟨m, hkept, hunswept, rfl⟩⟩
  · rintro ⟨x, hx⟩
    obtain ⟨m, hkept, hunswept, -⟩ := find?_eq_some_iff.1 hx
    exact ⟨m, x.value, hkept, hunswept⟩

/-- What is live is what is found and not expired. -/
theorem live_iff {v : ν} : l.Live segment k n v ↔
    ∃ x, (l.cache n).find? segment k = some x ∧ x.expired (l.clock n) = false ∧ x.value = v := by
  constructor
  · rintro ⟨m, hkept, hlive⟩
    -- What is not expired now has not been expired at any time before.
    have hunswept : l.Unswept segment k m n := fun i _ hi _ =>
      Nat.lt_of_le_of_lt (l.mono (Nat.le_of_lt hi)) hlive
    refine ⟨{ value := v, expires := l.clock m + l.ttl.toNat },
      find?_eq_some_iff.2 ⟨m, hkept, hunswept, rfl⟩, ?_, rfl⟩
    simpa [Entry.expired] using hlive
  · rintro ⟨x, hx, hlive, rfl⟩
    obtain ⟨m, hkept, -, hexpires⟩ := find?_eq_some_iff.1 hx
    refine ⟨m, hkept, ?_⟩
    simpa [Entry.expired, hexpires] using hlive

/-! ### What is read -/

/-- What is read is what is live and of the kind that is asked for. -/
theorem get_eq_some_iff {read : ν → Option α} {a : α} :
    ((l.cache n).get (l.clock n) segment k read).1 = some a ↔
      ∃ v, l.Live segment k n v ∧ read v = some a := by
  simp only [get_fst, Option.bind_eq_some_iff, Option.filter_eq_some_iff, live_iff]
  constructor
  · rintro ⟨x, ⟨hx, hlive⟩, ha⟩
    exact ⟨x.value, ⟨x, hx, by simpa using hlive, rfl⟩, ha⟩
  · rintro ⟨v, ⟨x, hx, hlive, rfl⟩, ha⟩
    exact ⟨x, ⟨hx, by simpa using hlive⟩, ha⟩

theorem get_of_live {v : ν} (hv : l.Live segment k n v) (read : ν → Option α) :
    (l.cache n).get (l.clock n) segment k read = (read v, l.cache n) := by
  obtain ⟨x, hx, hlive, rfl⟩ := live_iff.1 hv
  exact get_of_not_expired hx hlive read

/-! ### Reading and purging -/

namespace Alike

variable {l' : Lifetime ν}

/-- Invalidations are done to both caches. -/
theorem does_eq (h : Alike l l') {p : Op ν → Bool}
    (hp : ∀ op, p op = true → op.invalidates segment = true) (n : Nat) : l.does p n = l'.does p n := by
  have hloud : ∀ o : Option (Op ν), o.any p = (o.filter (!·.quiet)).any p := by
    intro o
    cases o with
    | none => rfl
    | some op =>
      cases hop : p op with
      | true => simp [Option.filter, hop, Op.not_quiet_of_invalidates (hp op hop)]
      | false => cases hq : op.quiet <;> simp [Option.filter, hop, hq]
  rw [History.does, History.does, hloud, h.op n, ← hloud]

theorem epoch_eq (h : Alike l l') (segment : String) (n : Nat) :
    (l.cache n).epoch segment = (l'.cache n).epoch segment := by
  induction n with
  | zero =>
    rw [l.fresh, l'.fresh]
    rfl
  | succ n ih =>
    have hp : ∀ op : Op ν, (op.movesAll = true → op.invalidates segment = true) ∧
        (op.movesSegment segment = true → op.invalidates segment = true) := fun op =>
      ⟨fun h => by simp [Op.invalidates, h], fun h => by simp [Op.invalidates, h]⟩
    have hall := h.does_eq (fun op => (hp op).1) n
    have hseg := h.does_eq (fun op => (hp op).2) n
    rw [History.epoch_succ, History.epoch_succ, ih, hall, hseg]

theorem stored?_eq (h : Alike l l') (segment : String) (k : Key) (n : Nat) :
    l.stored? segment k n = l'.stored? segment k n := by
  have hloud : ∀ (c : Cache ν) (o : Option (Op ν)), (o.bind fun op => op.stored? c segment k) =
      (o.filter (!·.quiet)).bind fun op => op.stored? c segment k := by
    intro c o
    cases o with
    | none => rfl
    | some op => cases op <;> simp [Op.quiet, Op.stored?, Op.stores?, Option.filter]
  have htakes : ∀ op : Op ν, op.stored? (l.cache n) segment k = op.stored? (l'.cache n) segment k := by
    intro op
    cases op <;> simp [Op.stored?, Op.takes, isCurrent, h.epoch_eq]
  rw [History.stored?, History.stored?, hloud, h.op n, ← hloud]
  congr 1
  funext op
  exact htakes op

theorem kept_iff (h : Alike l l') {m : Nat} {v : ν} :
    l.Kept segment k m n v ↔ l'.Kept segment k m n v := by
  have hremoves := h.does_eq (p := Op.removes segment k) fun _ => Op.invalidates_of_removes
  constructor
  · rintro ⟨hlt, hstored, halone⟩
    exact ⟨hlt, h.stored?_eq segment k m ▸ hstored, fun i hm hn =>
      h.stored?_eq segment k i ▸ hremoves i ▸ halone i hm hn⟩
  · rintro ⟨hlt, hstored, halone⟩
    exact ⟨hlt, (h.stored?_eq segment k m).symm ▸ hstored, fun i hm hn =>
      (h.stored?_eq segment k i).symm ▸ (hremoves i).symm ▸ halone i hm hn⟩

theorem live_iff (h : Alike l l') {v : ν} : l.Live segment k n v ↔ l'.Live segment k n v := by
  simp only [Live, h.kept_iff, h.ttl, h.clock]

/-- Two caches that live alike are read alike. -/
theorem get_eq (h : Alike l l') (n : Nat) (segment : String) (k : Key) (read : ν → Option α) :
    ((l.cache n).get (l.clock n) segment k read).1 =
      ((l'.cache n).get (l'.clock n) segment k read).1 := by
  refine Option.ext fun a => ?_
  rw [get_eq_some_iff, get_eq_some_iff]
  simp only [h.live_iff]

end Alike

/-! ### How many entries there are -/

theorem size_eq (l : Lifetime ν) (n : Nat) :
    (l.cache n).size = {p : String × Key | l.Present p.1 p.2 n}.ncard := by
  simp only [present_iff]
  exact size_eq_ncard _

/-- After purging there are the live entries and no others. -/
theorem size_purge_eq (l : Lifetime ν) (n : Nat) : ((l.cache n).purge (l.clock n)).size =
    {p : String × Key | ∃ v, l.Live p.1 p.2 n v}.ncard := by
  have hset : {p : String × Key | ∃ v, l.Live p.1 p.2 n v} =
      {p | (((l.cache n).purge (l.clock n)).find? p.1 p.2).isSome = true} := by
    ext ⟨s, k⟩
    show (∃ v, l.Live s k n v) ↔ (((l.cache n).purge (l.clock n)).find? s k).isSome = true
    simp only [live_iff, find?_purge, Option.isSome_iff_exists, Option.filter_eq_some_iff]
    constructor
    · rintro ⟨_, x, hx, hlive, -⟩
      exact ⟨x, hx, by simpa using hlive⟩
    · rintro ⟨x, hx, hlive⟩
      exact ⟨x.value, x, hx, by simpa using hlive, rfl⟩
  rw [hset]
  exact size_eq_ncard _

/-- A cache is read like a map that forgets what is expired on the spot. What is read is what was stored
last, less than the time to live ago, unless somebody has taken it away or it is of another kind; and a live
value of another kind stays. Whether somebody has read or purged before makes no difference. Purging says
how many entries go, and leaves those that are live; and what is deleted was there, expired or not. -/
theorem refines (l : Lifetime ν) (n : Nat) :
    (∀ segment k (read : ν → Option α) a,
      ((l.cache n).get (l.clock n) segment k read).1 = some a ↔
        ∃ v, l.Live segment k n v ∧ read v = some a) ∧
    (∀ l', Alike l l' → ∀ segment k (read : ν → Option α),
      ((l.cache n).get (l.clock n) segment k read).1 =
        ((l'.cache n).get (l'.clock n) segment k read).1) ∧
    (∀ segment k v (read : ν → Option α), l.Live segment k n v → read v = none →
      (l.cache n).get (l.clock n) segment k read = (none, l.cache n)) ∧
    ((l.cache n).size = {p : String × Key | l.Present p.1 p.2 n}.ncard ∧
      ((l.cache n).purge (l.clock n)).size + (l.cache n).purgeCount (l.clock n) = (l.cache n).size ∧
      ((l.cache n).purge (l.clock n)).size = {p : String × Key | ∃ v, l.Live p.1 p.2 n v}.ncard) ∧
    ∀ segment k, ((l.cache n).delete segment k).1 = true ↔ l.Present segment k n := by
  refine ⟨fun _ _ _ _ => get_eq_some_iff, fun l' h => h.get_eq n, fun segment k v read hv hread => ?_,
    ⟨l.size_eq n, size_purge _ _, l.size_purge_eq n⟩, fun segment k => present_iff.symm⟩
  rw [get_of_live hv, hread]

/-- A value is there for as long as it lives, and not a moment longer. -/
example :
    let l : Lifetime Nat := ofOps 1500 (fun n => [0, 1499, 1].getD n 0) fun n =>
      if n = 0 then some (.set "a" (.int 1) 7) else none
    ((l.cache 2).get (l.clock 2) "a" (.int 1) some).1 = some 7 ∧
      ((l.cache 3).get (l.clock 3) "a" (.int 1) some).1 = none ∧ (l.cache 3).size = 1 := by
  decide

end Lifetime

end ReadThrough.Cache
