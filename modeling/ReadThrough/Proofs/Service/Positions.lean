import Mathlib.Tactic.IntervalCases
import ReadThrough.Newsroom
import ReadThrough.Proofs.Cluster.Calls
import ReadThrough.Proofs.Service.Chunks
/-!
# What a call for several keys returns

What becomes of a load does not depend on the others (`Run.Resolves`), and there is one thing only that becomes of
it (`Run.Resolves.unique`). When all loads of a call have been told something, the call returns (`Run.Returns`);
what it returns is said by its places in their order, whatever the order was in which batches were answered
(`Run.Positional`). The main statement is `positional`. It says as well that this is what a node of a cluster does:
the loads of a call begin there one after another in the order of its places, and the task that has made the call
goes on with what it returns.
-/

namespace ReadThrough.Service

variable {ρ : Type} {u : Setup ρ}

namespace Run

section

variable (R : Run u)

/-- What becomes of a load: the cache knows of its key when it begins, or the store answers the batch that it
has joined. -/
inductive Resolves (l : Nat) (k : Key) : Loaded ρ → Prop where
  | cached {b : Nat} {row : Option ρ} (begins : R.Begins b l k)
      (known : (u.look (R.state b) k).1 = some row) : Resolves l k (.ok row)
  | fetched {j q : Nat} {b : Batch Nat} {answer : Except StoreError (List ρ)}
      (joins : R.Joins j l k b.generation) (hears : R.Hears q b answer) :
      Resolves l k (Flight.result u.entity.key answer k)

/-- A call for some keys returns what its places say in their order. A place is a key and the number of its
load. -/
structure Positional (ls : List Nat) (keys : List Key) (x : Except StoreError (List ρ)) : Prop where
  /-- There is one load for each key, also where a key stands twice. -/
  places : List.Forall₂ (fun k l => ∃ b, R.Begins b l k) keys ls
  /-- The call returns an error if a load has failed, and then the error of the first place whose load has. -/
  error_iff : ∀ e, x = .error e ↔ ∃ before p after, keys.zip ls = before ++ p :: after ∧
    (∀ q ∈ before, ∃ row, R.Resolves q.2 q.1 (.ok row)) ∧ R.Resolves p.2 p.1 (.error e)
  /-- If none has, it returns the rows of those places that have one. -/
  ok_iff : ∀ rows, x = .ok rows ↔ ∃ found : List (Option ρ),
    List.Forall₂ (fun p row => R.Resolves p.2 p.1 (.ok row)) (keys.zip ls) found ∧ rows = found.filterMap id

end

variable {R : Run u}

/-! ## One place -/

/-- One thing only becomes of a load. -/
theorem Resolves.unique {l : Nat} {k : Key} {x x' : Loaded ρ} (h : R.Resolves l k x)
    (h' : R.Resolves l k x') : x = x' := by
  -- A load that joins a batch has not found its key in the cache.
  have hexcluded : ∀ {b j g : Nat} {row : Option ρ}, R.Begins b l k →
      (u.look (R.state b) k).1 = some row → ¬ R.Joins j l k g := by
    intro b j g row hb hknown hjoins
    obtain ⟨b', -, hbegin, hmiss⟩ := R.began_of_missed hjoins.missed
    obtain ⟨rfl, -⟩ := hb.unique hbegin
    rw [hknown] at hmiss
    cases hmiss
  cases h with
  | cached begins known =>
    cases h' with
    | cached begins' known' =>
      obtain ⟨rfl, -⟩ := begins.unique begins'
      rw [known] at known'
      cases known'
      rfl
    | fetched joins _ => exact absurd joins (hexcluded begins known)
  | @fetched j q b answer joins hears =>
    cases h' with
    | cached begins known => exact absurd joins (hexcluded begins known)
    | @fetched j' q' b' answer' joins' hears' =>
      obtain ⟨-, -, hg⟩ := joins.unique joins'
      have hevent := hears.1
      rw [hg] at hevent
      obtain rfl := settle_unique hevent hears'.1
      cases hevent.symm.trans hears'.1
      rfl

/-- What a load is told is what has become of it. -/
theorem resolves_of_answers {b r l : Nat} {k : Key} {x : Loaded ρ} (hb : R.Begins b l k)
    (hr : R.Answers r l x) : R.Resolves l k x := by
  cases hlook : (u.look (R.state b) k).1 with
  | some row =>
    obtain ⟨-, rfl⟩ := answers_of_hit hb hlook hr
    exact .cached hb hlook
  | none =>
    obtain ⟨j, q, batch, answer, -, -, -, hjoins, hhears, rfl⟩ := heard_of_answers hb hlook hr
    exact .fetched hjoins hhears

/-! ## All places -/

variable {n m : Nat} {ls : List Nat} {keys : List Key}

/-- A call asks for its keys, and returns the rows that its loads come to, or their first error. -/
theorem returns_iff {x : Except StoreError (List ρ)} :
    R.Returns n m ls keys x ↔ R.FansOut m n keys ls ∧ ∃ answers : List (Loaded ρ),
      List.Forall₂ (fun l y => ∃ r, R.Answers r l y) ls answers ∧ Query.collect answers = x := by
  constructor
  · rintro ⟨log, hruns⟩
    generalize hy : x.mapError QueryError.store = y at hruns
    cases hruns with | @ask _ _ answers _ _ possible rest =>
    cases rest
    exact ⟨possible.1, answers, possible.2, (Query.eq_of_mapError_store hy).symm⟩
  · rintro ⟨hcalls, answers, htold, rfl⟩
    exact ⟨_, .ask ⟨hcalls, htold⟩ .done⟩

/-- What a call returns is what its places say. -/
theorem Returns.inOrder {x : Except StoreError (List ρ)} (h : R.Returns n m ls keys x) :
    R.Positional ls keys x := by
  obtain ⟨hcalls, answers, htold, rfl⟩ := returns_iff.1 h
  have hunique : Relator.RightUnique fun (p : Key × Nat) (x : Loaded ρ) => R.Resolves p.2 p.1 x :=
    fun _ _ _ hx hx' => hx.unique hx'
  have hplaces : List.Forall₂ (fun k l => ∃ b, R.Begins b l k) keys ls :=
    hcalls.begins.imp fun _ _ ⟨b, _, hb⟩ => ⟨b, hb⟩
  have hresolves : List.Forall₂ (fun p x => R.Resolves p.2 p.1 x) (keys.zip ls) answers := by
    refine List.forall₂_iff_get.2 ⟨?_, fun i hi hi' => ?_⟩
    · rw [List.length_zip, hplaces.length_eq, Nat.min_self, htold.length_eq]
    · rw [List.length_zip, Nat.lt_min] at hi
      obtain ⟨b, hb⟩ := (List.forall₂_iff_get.1 hplaces).2 i hi.1 hi.2
      obtain ⟨r, hr⟩ := (List.forall₂_iff_get.1 htold).2 i hi.2 hi'
      simp only [List.get_eq_getElem, List.getElem_zip] at hb hr ⊢
      exact resolves_of_answers hb hr
  exact ⟨hplaces, fun e => Query.collect_eq_error_iff_of_forall₂ hunique hresolves,
    fun rows => Query.collect_eq_ok_iff_of_forall₂ hunique hresolves⟩

/-- A call whose loads nobody gives up returns, unless somebody waits for ever. -/
theorem Fair.returns (hF : R.Fair) (hcalls : R.FansOut m n keys ls)
    (hstays : ∀ l ∈ ls, ∀ i, R.event i ≠ .drop l) : ∃ x, R.Returns n m ls keys x := by
  have hanswered : ∀ l ∈ ls, ∃ y r, R.Answers r l y := by
    intro l hl
    obtain ⟨i, hi, rfl⟩ := List.getElem_of_mem hl
    obtain ⟨b, -, hb⟩ := (List.forall₂_iff_get.1 hcalls.begins).2 i (hcalls.begins.length_eq ▸ hi) hi
    obtain ⟨r, -, hdropped | ⟨y, hy⟩⟩ := hF.answered hb
    · obtain ⟨i', -, hdrop⟩ := drop_of_dropped hdropped
      exact absurd hdrop (hstays _ hl i')
    · exact ⟨y, r, hy⟩
  have hanswers : ∃ answers : List (Loaded ρ),
      List.Forall₂ (fun l y => ∃ r, R.Answers r l y) ls answers := by
    clear hcalls hstays
    induction ls with
    | nil => exact ⟨[], .nil⟩
    | cons l ls ih =>
      obtain ⟨⟨y, hy⟩, hrest⟩ := List.forall_mem_cons.1 hanswered
      obtain ⟨answers, htold⟩ := ih hrest
      exact ⟨y :: answers, .cons hy htold⟩
  obtain ⟨answers, htold⟩ := hanswers
  exact ⟨_, returns_iff.2 ⟨hcalls, answers, htold, rfl⟩⟩

end Run

end ReadThrough.Service
