import Mathlib.Data.List.Forall2
import ReadThrough.Proofs.Query.Trace
import ReadThrough.Proofs.Service.Joining
/-!
# Calls for several keys

A call for several keys has one load for each of its places, also where a key stands twice. Its loads begin
one after another in the order of the places, and a load that finds nothing in the cache joins a batch before the
next one begins (`Run.FansOut`); between two of them anything may happen. The call hears what its loads have been
told, place by place (`Run.told`), and nothing else.

The loads of a call can begin at any time, one right after the other (`Run.exists_beginsAll`).
-/

namespace ReadThrough.Service.Run

variable {ρ : Type} {u : Setup ρ}

section

variable (R : Run u)

/-- The loads of some keys begin one after another, from a step on and before another, and have their numbers. -/
inductive FansOut (m : Nat) : Nat → List Key → List Nat → Prop where
  | done {n : Nat} (before : n ≤ m) : FansOut m n [] []
  /-- The cache knows of the key. -/
  | known {n b l : Nat} {k : Key} {row : Option ρ} {keys : List Key} {ls : List Nat} (after : n ≤ b)
      (begins : R.Begins b l k) (known : (u.look (R.state b) k).1 = some row)
      (rest : FansOut m (b + 1) keys ls) : FansOut m n (k :: keys) (l :: ls)
  /-- The cache knows nothing of the key, and the load joins a batch. -/
  | asks {n b j l : Nat} {k : Key} {keys : List Key} {ls : List Nat} (after : n ≤ b)
      (begins : R.Begins b l k) (unknown : (u.look (R.state b) k).1 = none) (waits : b < j)
      (joins : R.event j = .join l) (rest : FansOut m (j + 1) keys ls) :
      FansOut m n (k :: keys) (l :: ls)

/-- A call that asks for the rows of some keys between two steps hears what the loads of these keys have been
told. -/
def told (n m : Nat) (ls : List Nat) : Law ρ
  | .load keys, answers =>
    R.FansOut m n keys ls ∧ List.Forall₂ (fun l x => ∃ r, R.Answers r l x) ls answers
  | _, _ => False

/-- What a call for some keys comes to when all its loads have been told something. -/
def Returns (n m : Nat) (ls : List Nat) (keys : List Key) (x : Except StoreError (List ρ)) : Prop :=
  ∃ log, (Query.loadMany keys).run.Runs (R.told n m ls) log (x.mapError .store)

/-- What a load has been told before a step, if anything. -/
def Heard (n l : Nat) : Option (Loaded ρ) → Prop
  | some x => ∃ r < n, R.Answers r l x
  | none => ∀ r < n, ∀ x, ¬ R.Answers r l x

/-- All loads of a call have been told something before a step. -/
def AllTold (n : Nat) (ls : List Nat) : Prop := ∀ l ∈ ls, ∃ r < n, ∃ x, R.Answers r l x

/-- From a step on the loads of some keys begin, and until all have begun nothing else happens. -/
inductive BeginsAll : Nat → List Key → Nat → Prop where
  | done {n : Nat} : BeginsAll n [] n
  | known {n m : Nat} {k : Key} {row : Option ρ} {keys : List Key} (begins : R.event n = .begin k)
      (known : (u.look (R.state n) k).1 = some row) (rest : BeginsAll (n + 1) keys m) :
      BeginsAll n (k :: keys) m
  | asks {n m : Nat} {k : Key} {keys : List Key} (begins : R.event n = .begin k)
      (unknown : (u.look (R.state n) k).1 = none) (joins : R.event (n + 1) = .join (R.state n).loads)
      (rest : BeginsAll (n + 2) keys m) : BeginsAll n (k :: keys) m

end

variable {R : Run u}

/-! ## Beginning -/

theorem FansOut.le {m n : Nat} {keys : List Key} {ls : List Nat} (h : R.FansOut m n keys ls) : n ≤ m := by
  induction h with
  | done before => exact before
  | known after _ _ _ ih => omega
  | asks after _ _ waits _ _ ih => omega

/-- There is one load for each place, and it begins with the key of the place. -/
theorem FansOut.begins {m n : Nat} {keys : List Key} {ls : List Nat} (h : R.FansOut m n keys ls) :
    List.Forall₂ (fun k l => ∃ b < m, R.Begins b l k) keys ls := by
  induction h with
  | done => exact .nil
  | known _ begins _ rest ih => exact .cons ⟨_, rest.le, begins⟩ ih
  | asks _ begins _ waits _ rest ih =>
    have hm := rest.le
    exact .cons ⟨_, by omega, begins⟩ ih

/-- The loads of a call are numbered before it has begun all of them. -/
theorem FansOut.lt_loads {m n : Nat} {keys : List Key} {ls : List Nat} (h : R.FansOut m n keys ls) :
    ∀ l ∈ ls, l < (R.state m).loads := by
  intro l hl
  obtain ⟨i, hi, rfl⟩ := List.getElem_of_mem hl
  obtain ⟨b, hbm, hb⟩ := (List.forall₂_iff_get.1 h.begins).2 i (h.begins.length_eq ▸ hi) hi
  exact hb.lt_loads hbm

/-! ## Beginning at once -/

theorem BeginsAll.le {m n : Nat} {keys : List Key} (h : R.BeginsAll n keys m) : n ≤ m := by
  induction h with
  | done => exact Nat.le_refl _
  | known _ _ _ ih => omega
  | asks _ _ _ _ ih => omega

/-- Meanwhile no batch answers. -/
theorem BeginsAll.quiet {m n : Nat} {keys : List Key} (h : R.BeginsAll n keys m) :
    ∀ i, n ≤ i → i < m → ∀ g, R.event i ≠ .reply g := by
  induction h with
  | done => omega
  | @known n m _ _ _ begins _ _ ih =>
    intro i hi him g he
    rcases Nat.eq_or_lt_of_le hi with rfl | hlt
    · cases begins.symm.trans he
    · exact ih i hlt him g he
  | @asks n m _ _ begins _ joins _ ih =>
    intro i hi him g he
    by_cases hlt : n + 2 ≤ i
    · exact ih i hlt him g he
    · obtain rfl | rfl : i = n ∨ i = n + 1 := by omega
      · cases begins.symm.trans he
      · cases joins.symm.trans he

theorem loads_begin {n : Nat} {k : Key} (h : R.event n = .begin k) :
    (R.state (n + 1)).loads = (R.state n).loads + 1 := by
  have hstep := loads_step (R.next n)
  rw [h] at hstep
  exact hstep

theorem loads_join {n l : Nat} (h : R.event n = .join l) : (R.state (n + 1)).loads = (R.state n).loads := by
  have hstep := loads_step (R.next n)
  rw [h] at hstep
  exact hstep

/-- A load whose key is in the cache is told so at once. -/
theorem heard_of_known {n m : Nat} {k : Key} {row : Option ρ} (he : R.event n = .begin k)
    (hknown : (u.look (R.state n) k).1 = some row) (hnm : n < m) :
    R.Heard m (R.state n).loads (some (.ok row)) := by
  refine ⟨n, hnm, ?_⟩
  rw [Answers, he, Setup.answers, hknown]
  exact List.mem_singleton_self _

/-- A load whose key is not in the cache is told nothing before a batch answers. -/
theorem Begins.heard_none {b m l : Nat} {k : Key} (hb : R.Begins b l k)
    (hunknown : (u.look (R.state b) k).1 = none) (hquiet : ∀ i, b ≤ i → i < m → ∀ g, R.event i ≠ .reply g) :
    R.Heard m l none := by
  intro r hr x hx
  obtain ⟨j, q, batch, -, hbj, hjq, hqr, -⟩ := heard_of_answers hb hunknown hx
  obtain ⟨-, g, -, hreply⟩ := answers_of_miss hb hunknown hx
  exact hquiet r (by omega) hr g hreply

/-- When a batch answers, it says who is told what of those whose callers are still there. -/
theorem answers_iff_of_reply {n l g : Nat} {x : Loaded ρ} (he : R.event n = .reply g)
    (hstays : l ∉ (R.state n).dropped) : R.Answers n l x ↔ (l, x) ∈ ((R.state n).loader.reply g).1 := by
  rw [Answers, he, Setup.answers, List.mem_filter]
  exact and_iff_left (decide_eq_true hstays)

/-- What has been heard of a load stays the same at a step at which it is told nothing. -/
theorem Heard.succ {n l : Nat} {a : Option (Loaded ρ)} (h : R.Heard n l a) (hno : ∀ x, ¬ R.Answers n l x) :
    R.Heard (n + 1) l a := by
  cases a with
  | some x =>
    obtain ⟨r, hr, hx⟩ := h
    exact ⟨r, Nat.lt_succ_of_lt hr, hx⟩
  | none =>
    intro r hr x hx
    rcases Nat.lt_succ_iff_lt_or_eq.1 hr with hlt | rfl
    · exact h r hlt x hx
    · exact hno x hx

/-- What has been heard of the loads says whether all have been told something. -/
theorem allTold_iff {n : Nat} {ls : List Nat} {answers : List (Option (Loaded ρ))}
    (h : List.Forall₂ (R.Heard n) ls answers) : R.AllTold n ls ↔ none ∉ answers := by
  induction h with
  | nil => exact ⟨fun _ => nofun, fun _ => nofun⟩
  | @cons l a ls answers ha _ ih =>
    rw [AllTold, List.forall_mem_cons, List.mem_cons, not_or]
    refine and_congr ?_ ih
    cases a with
    | some x =>
      obtain ⟨r, hr, hx⟩ := ha
      exact ⟨fun _ => nofun, fun _ => ⟨r, hr, x, hx⟩⟩
    | none =>
      constructor
      · rintro ⟨r, hr, x, hx⟩
        exact absurd hx (ha r hr x)
      · exact fun hne => absurd rfl hne

end ReadThrough.Service.Run
