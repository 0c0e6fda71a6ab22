import ReadThrough.Proofs.Cluster.Hosting
import ReadThrough.Proofs.Query.Collect
import ReadThrough.Proofs.Service.Calls
/-!
# Calls for several keys in a cluster

A task that calls for several keys runs in a node that hosts a service. Its loads begin in the service one after
another, in the order of the keys (`Hosts.beginLoads`), and the task waits until all of them have been told
something (`Awaits`). Whatever happens in the service meanwhile, the task hears what its loads are told and
nothing else, each answer at the place of its load (`Awaits.reply`, `Awaits.spared`, `Awaits.along`); and then it
goes on with what the call returns (`Awaits.runTask`, `Makes.carriesOut`). A batch whose task breaks down answers
as one that has heard so does (`Hosts.land_abandon`).
-/

namespace ReadThrough.Cluster

variable {ρ : Type} {u : Service.Setup ρ} {node id : Nat} {tk : Nat → Ticket} {c c' : Cluster ρ}

/-! ## Plans that load several keys -/

/-- A plan loads several keys first, for a caller or for a query, and goes on with what they come to. -/
inductive LoadsMany (e : Entity ρ) (keys : List Key) :
    Plan ρ (Outcome ρ) → (Except StoreError (List ρ) → Plan ρ (Outcome ρ)) → Prop where
  | wish {n : Node ρ} (registered : (n.engine? e).isSome) :
      LoadsMany e keys ((Wish.loadMany keys).plan n e) fun x => .done (.rows x)
  | query (f : Except QueryError (List ρ) → Plan ρ (Outcome ρ)) :
      LoadsMany e keys ((Query.loadMany keys).run >>= f) fun x => f (x.mapError .store)

theorem LoadsMany.eq {e : Entity ρ} {keys : List Key} {p : Plan ρ (Outcome ρ)}
    {k : Except StoreError (List ρ) → Plan ρ (Outcome ρ)} (h : LoadsMany e keys p k) :
    p = .ask (.load keys) fun answers => k (Query.collect answers) := by
  cases h with
  | @wish n registered =>
    rw [Wish.plan.eq_def]
    cases hn : n.engine? e with
    | some g => rfl
    | none =>
      rw [hn] at registered
      cases registered
  | query f => rfl

/-- The answers are there when none is missing. -/
theorem mapM_answers (answers : List (Option (Loaded ρ))) :
    (none ∈ answers ∧ (answers.mapM fun a => a) = none) ∨
      ∃ xs : List (Loaded ρ), answers = xs.map some ∧ (answers.mapM fun a => a) = some xs := by
  induction answers with
  | nil => exact .inr ⟨[], rfl, rfl⟩
  | cons a answers ih =>
    cases a with
    | none => exact .inl ⟨List.mem_cons_self, rfl⟩
    | some x =>
      rw [List.mapM_cons]
      rcases ih with ⟨hmem, hnone⟩ | ⟨xs, rfl, hsome⟩
      · refine .inl ⟨List.mem_cons_of_mem _ hmem, ?_⟩
        rw [hnone]
        rfl
      · refine .inr ⟨x :: xs, rfl, ?_⟩
        rw [hsome]
        rfl

theorem none_not_mem_map_some (xs : List (Loaded ρ)) : none ∉ xs.map some := by
  simp

/-! ## Loads that begin -/

/-- The loads of a task have its tickets, each that of its place, and no other loads have. -/
def Tickets (tk : Nat → Ticket) (id : Nat) (ls : List Nat) : Prop :=
  ∀ l p, tk l = ⟨id, p⟩ ↔ ls[p]? = some l

/-- The node hosts the service when the service has looked into its cache. -/
theorem Hosts.begin {s s' : Service ρ} {k : Key} (h : Hosts u node tk c { s with cache := (u.look s k).2 })
    (hbegin : u.step s (.begin k) = some s') : Hosts u node tk c s' := by
  cases hbegin
  exact ⟨h.clock, h.node⟩

/-- The node hosts the service when a load has joined a batch of the service. -/
theorem Hosts.join {s s₁ s' : Service ρ} {k : Key}
    (h : Hosts u node tk c
      { s with cache := (u.look s k).2, loader := (s.loader.join u.config.threshold k s.loads).2 })
    (hbegin : u.step s (.begin k) = some s₁) (hunknown : (u.look s k).1 = none)
    (hjoin : u.step s₁ (.join s.loads) = some s') : Hosts u node tk c s' := by
  have hmissed := Service.missed_of_begin hbegin hunknown
  cases hbegin
  cases Service.step_moves hjoin with | join hk =>
  cases hmissed.symm.trans hk
  exact ⟨h.clock, h.node⟩

/-- The node hosts the service when a batch of the service has answered. -/
theorem Hosts.reply {s s' : Service ρ} {g : Nat}
    (h : Hosts u node tk c { s with loader := (s.loader.reply g).2 })
    (hreply : u.step s (.reply g) = some s') : Hosts u node tk c s' := by
  simp only [Service.Setup.step] at hreply
  split at hreply
  · cases hreply
    exact ⟨h.clock, h.node⟩
  · cases hreply

/-- The loads of a task begin in a node as they begin in the service, one after another. -/
theorem Hosts.beginLoads {R : Service.Run u} {n m : Nat} {keys : List Key} (h : Hosts u node tk c (R.state n))
    (hbegins : R.BeginsAll n keys m) (hid : id < c.nextTask) (place : Nat)
    (htk : ∀ i < keys.length, tk ((R.state n).loads + i) = ⟨id, place + i⟩) :
    ∃ answers c', beginLoads node u.entity id place keys c = (answers, c') ∧
      Hosts u node tk c' (R.state m) ∧ Spares id c c' ∧
      List.Forall₂ (R.Heard m) (List.range' (R.state n).loads keys.length) answers := by
  induction hbegins generalizing c place with
  | done => exact ⟨[], c, rfl, h, .refl id c, .nil⟩
  | @known n m k row keys begins known rest ih =>
    obtain ⟨c₁, hfirst, hhosts, hspares⟩ := h.beginLoad_known known ⟨id, place⟩
    have hnext := hhosts.begin (begins ▸ R.next n)
    have htk' : ∀ i < keys.length, tk ((R.state (n + 1)).loads + i) = ⟨id, place + 1 + i⟩ := by
      intro i hi
      rw [Service.Run.loads_begin begins, Nat.add_right_comm, Nat.add_assoc, Nat.add_right_comm place]
      exact htk (i + 1) (Nat.succ_lt_succ hi)
    obtain ⟨answers, c', hrest, hhosts', hspares', hheard⟩ :=
      ih hnext (Nat.lt_of_lt_of_le hid (hspares id).nextTask) (place + 1) htk'
    rw [Service.Run.loads_begin begins] at hheard
    refine ⟨some (.ok row) :: answers, c', ?_, hhosts', (hspares id).trans hspares', .cons ?_ hheard⟩
    · rw [Cluster.beginLoads, hfirst]
      simp only [hrest]
    · exact Service.Run.heard_of_known begins known rest.le
  | @asks n m k keys begins unknown joins rest ih =>
    have hticket : tk (R.state n).loads = ⟨id, place⟩ := htk 0 (Nat.zero_lt_succ _)
    obtain ⟨c₁, hfirst, hhosts, hspares⟩ := h.beginLoad_unknown unknown (R.state n).loads
    have hnext := hhosts.join (begins ▸ R.next n) unknown (joins ▸ R.next (n + 1))
    have hloads : (R.state (n + 2)).loads = (R.state n).loads + 1 :=
      (Service.Run.loads_join joins).trans (Service.Run.loads_begin begins)
    have htk' : ∀ i < keys.length, tk ((R.state (n + 2)).loads + i) = ⟨id, place + 1 + i⟩ := by
      intro i hi
      rw [hloads, Nat.add_right_comm, Nat.add_assoc, Nat.add_right_comm place]
      exact htk (i + 1) (Nat.succ_lt_succ hi)
    obtain ⟨answers, c', hrest, hhosts', hspares', hheard⟩ :=
      ih hnext (Nat.lt_of_lt_of_le hid (hspares id hid).nextTask) (place + 1) htk'
    rw [hloads] at hheard
    refine ⟨none :: answers, c', ?_, hhosts', (hspares id hid).trans hspares', .cons ?_ hheard⟩
    · rw [Cluster.beginLoads, ← hticket, hfirst]
      simp only [hrest]
    · have hquiet := (Service.Run.BeginsAll.asks begins unknown joins rest).quiet
      exact Service.Run.Begins.heard_none ⟨begins, rfl⟩ unknown hquiet

/-! ## A task that waits -/

/-- A task waits for the loads of a call: of each it has heard what the load has been told, and when all have
been told something it can run. -/
structure Awaits (R : Service.Run u) (node id : Nat) (tk : Nat → Ticket) (ls : List Nat)
    (k : Except StoreError (List ρ) → Plan ρ (Outcome ρ)) (n : Nat) (c : Cluster ρ) : Prop where
  hosts : Hosts u node tk c (R.state n)
  waits : ∃ answers, List.Forall₂ (R.Heard n) ls answers ∧
    c.tasks.find? id =
      some (node, .call u.entity (.loading answers fun answers => k (Query.collect answers)))
  ready : R.AllTold n ls → id ∈ c.ready

section

variable {R : Service.Run u} {n m : Nat} {ls : List Nat} {keys : List Key}
  {k : Except StoreError (List ρ) → Plan ρ (Outcome ρ)}

/-- What has been heard of the loads of a call, when nothing is missing, is what the call returns. -/
theorem returns_of_heard {xs : List (Loaded ρ)} {i : Nat} (hcalls : R.FansOut m n keys ls)
    (hheard : List.Forall₂ (R.Heard i) ls (xs.map some)) :
    R.Returns n m ls keys (Query.collect xs) := by
  refine ⟨_, .ask ⟨hcalls, ?_⟩ .done⟩
  refine (List.forall₂_map_right_iff.1 hheard).imp fun l x hx => ?_
  obtain ⟨r, -, hr⟩ := hx
  exact ⟨r, hr⟩

/-- When a batch answers, a task hears what is told to its loads, each answer at the place of its load. -/
theorem heard_reply {answers : List (Option (Loaded ρ))} {g : Nat} (he : R.event n = .reply g)
    (htk : Tickets tk id ls) (hstays : ∀ l ∈ ls, l ∉ (R.state n).dropped)
    (hheard : List.Forall₂ (R.Heard n) ls answers) :
    List.Forall₂ (R.Heard (n + 1)) ls
      ((((R.state n).loader.reply g).1.map fun a => (tk a.1, a.2)).foldl (noted id) answers) := by
  have htold : ∀ {a}, a ∈ (((R.state n).loader.reply g).1.map fun a => (tk a.1, a.2)) ↔
      ∃ b ∈ ((R.state n).loader.reply g).1, (tk b.1, b.2) = a := List.mem_map
  generalize (((R.state n).loader.reply g).1.map fun a => (tk a.1, a.2)) = told at htold ⊢
  obtain ⟨hlength, hplace⟩ := List.forall₂_iff_get.1 hheard
  refine List.forall₂_iff_get.2 ⟨by rw [length_notedAll, hlength], fun p hp hp' => ?_⟩
  have hl : ls[p]? = some (ls.get ⟨p, hp⟩) := List.getElem?_eq_getElem hp
  have hbefore : answers[p]? = some (answers.get ⟨p, hlength ▸ hp⟩) := List.getElem?_eq_getElem _
  have hafter : (told.foldl (noted id) answers)[p]? = some ((told.foldl (noted id) answers).get ⟨p, hp'⟩) :=
    List.getElem?_eq_getElem hp'
  have hanswers := fun x => R.answers_iff_of_reply (x := x) he (hstays _ (List.mem_of_getElem? hl))
  rcases getElem?_notedAll id p told (hlength ▸ hp) with ⟨x, hx, hfound⟩ | ⟨hnone, hsame⟩
  · -- Only the load of the place has its ticket.
    obtain ⟨⟨l, _⟩, hreplied, heq⟩ := htold.1 hx
    obtain ⟨hticket, rfl⟩ := Prod.mk.inj heq
    obtain rfl := Option.some.inj (hl.symm.trans ((htk l p).1 hticket))
    rw [hafter] at hfound
    rw [Option.some.inj hfound]
    exact ⟨n, Nat.lt_succ_self n, (hanswers _).2 hreplied⟩
  · rw [hafter, hbefore] at hsame
    rw [Option.some.inj hsame]
    refine (hplace p hp _).succ fun x hx => hnone x (htold.2 ⟨_, (hanswers x).1 hx, ?_⟩)
    exact Prod.ext ((htk _ p).2 hl) rfl

namespace Awaits

/-- A batch answers: the task hears what is told to its loads. -/
theorem reply (h : Awaits R node id tk ls k n c) {t g : Nat} (ht : id ≠ t) (htk : Tickets tk id ls)
    (he : R.event n = .reply g) (hstays : ∀ l ∈ ls, l ∉ (R.state n).dropped) :
    Awaits R node id tk ls k (n + 1) (c.land t node u.entity.segment g Loader.reply) := by
  obtain ⟨answers, hheard, htask⟩ := h.waits
  obtain ⟨c₁, hland, hhosts, hleft⟩ := h.hosts.land t g
  obtain ⟨htask₁, hready₁⟩ := hleft id ht
  rw [htask] at htask₁
  rw [hland]
  refine ⟨(hhosts.reply (he ▸ R.next n)).deliverAll _, ⟨_, heard_reply he htk hstays hheard, ?_⟩, ?_⟩
  · exact find?_deliverAll htask₁ _
  · intro htold
    by_cases hall : R.AllTold n ls
    · exact mem_ready_deliverAll (hready₁ (h.ready hall)) _
    · -- A load that has not been told anything before is told something now.
      obtain ⟨l, hl, hnot⟩ : ∃ l ∈ ls, ∀ r < n, ∀ x, ¬ R.Answers r l x := by
        simpa [Service.Run.AllTold] using hall
      obtain ⟨r, hr, x, hx⟩ := htold l hl
      obtain rfl : r = n := by
        by_contra hne
        exact hnot r (by omega) x hx
      obtain ⟨p, hp⟩ := List.getElem?_of_mem hl
      have hmem := (R.answers_iff_of_reply he (hstays l hl)).1 hx
      refine mem_ready_deliverAll_of_mem htask₁ (List.mem_map.2 ⟨_, hmem, rfl⟩) ?_
      rw [(htk l p).2 hp]

/-- When the task runs, it goes on with what the call returns if all its loads have been told something, and
waits otherwise. -/
theorem runTask (h : Awaits R node id tk ls k n c) {first m : Nat} (hcalls : R.FansOut m first keys ls) :
    (¬ R.AllTold n ls ∧ c.runTask id = c) ∨
      R.AllTold n ls ∧ ∃ x, c.runTask id = carryOut id node u.entity (k x) c ∧
        R.Returns first m ls keys x := by
  obtain ⟨answers, hheard, htask⟩ := h.waits
  rw [Service.Run.allTold_iff hheard, Cluster.runTask, htask]
  simp only [goOnCalling]
  rcases mapM_answers answers with ⟨hmissing, hnone⟩ | ⟨xs, rfl, hsome⟩
  · left
    rw [hnone]
    exact ⟨not_not.2 hmissing, rfl⟩
  · right
    rw [hsome]
    exact ⟨none_not_mem_map_some xs, _, rfl, returns_of_heard hcalls hheard⟩

end Awaits

/-! ## From beginning to end -/

/-- The cluster in which the node has come to a state of the service. -/
def host (u : Service.Setup ρ) (node : Nat) (tk : Nat → Ticket) (c : Cluster ρ) (s : Service ρ) : Cluster ρ :=
  { (c.setLoader node u.entity.segment (s.loader.map tk)).setCache node s.cache with clock := s.clock }

theorem Hosts.host {s : Service ρ} (h : Hosts u node tk c s) (s' : Service ρ) :
    Hosts u node tk (host u node tk c s') s' :=
  ⟨rfl, ((h.setLoader s'.loader).setCache s'.cache).node⟩

/-- A cluster that goes through what happens in the service from a step on, so many steps. -/
def follow (R : Service.Run u) (node id : Nat) (tk : Nat → Ticket) (m : Nat) (c : Cluster ρ) : Nat → Cluster ρ
  | 0 => c
  | j + 1 => match R.event (m + j) with
    | .reply g => (follow R node id tk m c j).land (id + 1) node u.entity.segment g Loader.reply
    | _ => host u node tk (follow R node id tk m c j) (R.state (m + j + 1))

theorem Hosts.follow (h : Hosts u node tk c (R.state m)) (id j : Nat) :
    Hosts u node tk (follow R node id tk m c j) (R.state (m + j)) := by
  induction j with
  | zero => exact h
  | succ j ih =>
    rw [Cluster.follow]
    split
    · rename_i g he
      obtain ⟨c', hland, hhosts, -⟩ := ih.land (id + 1) g
      rw [hland]
      exact (hhosts.reply (he ▸ R.next (m + j))).deliverAll _
    · exact ih.host _

end

end ReadThrough.Cluster
