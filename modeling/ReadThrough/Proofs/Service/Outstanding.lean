import ReadThrough.Proofs.Loader.Waiting
import ReadThrough.Proofs.Service.Batches
/-!
# Loads that are not answered yet

A load that the cache does not answer at once is outstanding until its batch answers: first it is missed,
then it waits. Every step takes the loads that are outstanding before it, and those that begin with it, to
the loads that it finishes and those that are outstanding after it; none is lost, and none comes twice
(`outstanding_step`).
-/

namespace ReadThrough.Service

variable {ρ : Type} {u : Setup ρ} {s s' : Service ρ}

/-- The loads that are not answered yet, with their keys. -/
def outstanding (s : Service ρ) : List (Nat × Key) :=
  s.missed.entries ++ s.loader.waiting.map Prod.swap

/-- The load that begins with an event. -/
def begun (s : Service ρ) : Event ρ → List (Nat × Key)
  | .begin k => [(s.loads, k)]
  | _ => []

/-- The loads that are answered by an event, whether or not somebody still hears the answers. -/
def Setup.finished (u : Setup ρ) (s : Service ρ) : Event ρ → List (Nat × Key)
  | .begin k => if (u.look s k).1.isSome then [(s.loads, k)] else []
  | .reply g => ((s.loader.flight? g).elim [] fun f => f.batch.waiting).map Prod.swap
  | _ => []

theorem finished_of_reply {g : Nat} {f : Flight ρ Nat} (h : s.loader.flight? g = some f) :
    u.finished s (.reply g) = f.batch.waiting.map Prod.swap := by
  rw [Setup.finished, h]
  rfl

/-- Where nothing begins and nothing ends, those who wait may change their places. -/
theorem outstanding_perm (hm : s'.missed = s.missed) (hw : s'.loader.waiting.Perm s.loader.waiting) :
    (s.outstanding ++ []).Perm ([] ++ s'.outstanding) := by
  rw [List.append_nil, List.nil_append, outstanding, outstanding, hm]
  exact (hw.symm.map Prod.swap).append_left _

theorem outstanding_begin (hs : Sound u s) (k : Key) :
    (s.outstanding ++ [(s.loads, k)]).Perm
      ((s.missed.insert s.loads k).entries ++ s.loader.waiting.map Prod.swap) := by
  -- The next number is that of no load that has begun.
  have hnew : s.missed.find? s.loads = none := by
    cases hl : s.missed.find? s.loads with
    | none => rfl
    | some k' => exact absurd (hs.missed_lt _ _ hl) (Nat.lt_irrefl _)
  rw [Dict.entries_insert hnew, outstanding, List.append_assoc, List.append_assoc]
  exact List.perm_append_comm.append_left _

theorem outstanding_join {l : Nat} {k : Key} (h : s.missed.find? l = some k) (threshold : Nat) :
    s.outstanding.Perm ((s.missed.erase l).entries ++
      (s.loader.join threshold k l).2.waiting.map Prod.swap) := by
  have hjoin : ((s.loader.join threshold k l).2.waiting.map Prod.swap).Perm
      (s.loader.waiting.map Prod.swap ++ [(l, k)]) := by
    have := (s.loader.waiting_join threshold k l).map Prod.swap
    rw [List.map_append] at this
    exact this
  have hmove : ((s.missed.erase l).entries ++ (s.loader.waiting.map Prod.swap ++ [(l, k)])).Perm
      ((l, k) :: (s.missed.erase l).entries ++ s.loader.waiting.map Prod.swap) := by
    rw [← List.append_assoc]
    exact List.perm_append_comm
  have hmissed : s.outstanding.Perm
      ((l, k) :: (s.missed.erase l).entries ++ s.loader.waiting.map Prod.swap) :=
    (Dict.entries_erase h).append_right _
  -- The load moves from those that are missed to those that wait.
  exact hmissed.trans ((hjoin.append_left _).trans hmove).symm

theorem outstanding_reply (hs : Sound u s) {g : Nat} {f : Flight ρ Nat}
    (h : s.loader.flight? g = some f) :
    s.outstanding.Perm (f.batch.waiting.map Prod.swap ++
      (s.missed.entries ++ (s.loader.remove g).waiting.map Prod.swap)) := by
  have hsplit : (s.loader.waiting.map Prod.swap).Perm
      (f.batch.waiting.map Prod.swap ++ (s.loader.remove g).waiting.map Prod.swap) := by
    have := (hs.numbered.waiting_remove h).map Prod.swap
    rw [List.map_append] at this
    exact this
  exact (hsplit.append_left _).trans (List.perm_append_comm_assoc _ _ _)

/-- What is outstanding and what begins is what is answered and what is outstanding afterwards. -/
theorem outstanding_step (hs : Sound u s) {ev : Event ρ} (h : u.step s ev = some s') :
    (s.outstanding ++ s.begun ev).Perm (u.finished s ev ++ s'.outstanding) := by
  cases step_moves h with
  | @begin k =>
    simp only [begun, Setup.finished]
    cases hk : (u.look s k).1 with
    | none => exact outstanding_begin hs k
    | some row => exact List.perm_append_comm
  | join hk =>
    show (s.outstanding ++ []).Perm _
    rw [List.append_nil]
    exact outstanding_join hk _
  | fire => exact outstanding_perm rfl (Loader.waiting_elapse _ _)
  | ask | write =>
    refine outstanding_perm rfl ?_
    rw [Loader.waiting_modify (by exact fun _ => rfl)]
  | settle =>
    refine outstanding_perm rfl ?_
    rw [Loader.waiting_modify fun f => Flight.batch_settle f _ _ _]
  | reply hf =>
    show (s.outstanding ++ []).Perm _
    rw [finished_of_reply hf, List.append_nil]
    exact outstanding_reply hs hf
  | drop | sleep | note | read | prime | close | touch | pass => exact outstanding_perm rfl (.refl _)

end ReadThrough.Service
