import ReadThrough.Cluster.Control
import ReadThrough.Proofs.Dict
import ReadThrough.Proofs.Loader.Renaming
import ReadThrough.Proofs.Loader.Replies
import ReadThrough.Proofs.Service.Basic
/-!
# Nodes that host a service

A node of a cluster `Hosts` a service when it has the cache, the loader and the settings of the service, and
every load has a ticket there. What a load does in the node is what it does in the service: it is answered from
the cache (`Hosts.beginLoad_known`), or it joins a batch (`Hosts.beginLoad_unknown`). When a batch answers, the
tickets of its loads are told what the loads are told (`Hosts.land`).
-/

namespace ReadThrough.Cluster

variable {ρ : Type} {u : Service.Setup ρ} {node : Nat} {tk : Nat → Ticket} {c c' c'' : Cluster ρ}
  {s : Service ρ}

/-- A node hosts a service: its clock, its settings and its cache are those of the service, and so is the loader
for the entity, but that the loads have tickets in place of their numbers. -/
structure Hosts (u : Service.Setup ρ) (node : Nat) (tk : Nat → Ticket) (c : Cluster ρ) (s : Service ρ) :
    Prop where
  clock : c.clock = s.clock
  node : ∃ n, c.nodes[node]? = some n ∧ n.config = u.config ∧ n.cache = s.cache ∧
    n.loaders.find? u.entity.segment = some { entity := u.entity, loader := s.loader.map tk }

/-- A task is left as it is, and no number is taken back. -/
structure Spares (id : Nat) (c c' : Cluster ρ) : Prop where
  task : c'.tasks.find? id = c.tasks.find? id
  nextTask : c.nextTask ≤ c'.nextTask

theorem Spares.refl (id : Nat) (c : Cluster ρ) : Spares id c c := ⟨rfl, Nat.le_refl _⟩

theorem Spares.trans {id : Nat} (h : Spares id c c') (h' : Spares id c' c'') : Spares id c c'' :=
  ⟨h'.task.trans h.task, Nat.le_trans h.nextTask h'.nextTask⟩

/-- A task that is started leaves those that have their numbers as they are. -/
theorem spares_spawn {id : Nat} (h : id < c.nextTask) (node : Nat) (t : Task ρ) :
    Spares id c (c.spawn node t) where
  task := by
    show (c.tasks.insert c.nextTask (node, t)).find? id = _
    rw [Dict.find?_insert, if_neg (Nat.ne_of_lt h)]
  nextTask := Nat.le_succ _

namespace Hosts

/-! ## Changing a node -/

theorem setLoader (h : Hosts u node tk c s) (l : Loader ρ Nat) :
    Hosts u node tk (c.setLoader node u.entity.segment (l.map tk)) { s with loader := l } where
  clock := h.clock
  node := by
    obtain ⟨n, hn, hconfig, hcache, hloader⟩ := h.node
    refine ⟨n.setLoader u.entity.segment (l.map tk), ?_, hconfig, hcache, ?_⟩
    · show (c.nodes.modify node _)[node]? = _
      rw [List.getElem?_modify, hn, Option.map_eq_map, Option.map_some, if_pos rfl]
    · show (n.loaders.modify u.entity.segment _).find? u.entity.segment = _
      rw [Dict.find?_modify, if_pos rfl, hloader]
      rfl

theorem setCache (h : Hosts u node tk c s) (cache : RowCache ρ) :
    Hosts u node tk (c.setCache node cache) { s with cache } where
  clock := h.clock
  node := by
    obtain ⟨n, hn, hconfig, -, hloader⟩ := h.node
    refine ⟨{ n with cache }, ?_, hconfig, rfl, hloader⟩
    show (c.nodes.modify node _)[node]? = _
    rw [List.getElem?_modify, hn, Option.map_eq_map, Option.map_some, if_pos rfl]

theorem record (h : Hosts u node tk c s) (m : Sample) : Hosts u node tk (c.record m) s :=
  ⟨h.clock, h.node⟩

/-- The loader of the node is that of the entity. -/
theorem registered? (h : Hosts u node tk c s) :
    ∃ n, c.nodes[node]? = some n ∧ n.config = u.config ∧ n.cache = s.cache ∧
      n.registered? u.entity.kind u.entity.segment =
        some { entity := u.entity, loader := s.loader.map tk } := by
  obtain ⟨n, hn, hconfig, hcache, hloader⟩ := h.node
  refine ⟨n, hn, hconfig, hcache, ?_⟩
  rw [Node.registered?, hloader, Option.filter_some, if_pos (decide_eq_true rfl)]

/-! ## Loads -/

/-- A load joins the batch in the node that it joins in the service. -/
theorem enqueue (h : Hosts u node tk c s) {n : Node ρ} (hn : n.config = u.config) (k : Key) (l : Nat) :
    Hosts u node tk (c.enqueue node n { entity := u.entity, loader := s.loader.map tk } k (tk l))
      { s with loader := (s.loader.join u.config.threshold k l).2 } := by
  have hjoined := h.setLoader (s.loader.join u.config.threshold k l).2
  rw [Cluster.enqueue, hn]
  simp only [Loader.join_map]
  split <;> split <;> exact ⟨hjoined.clock, hjoined.node⟩

end Hosts

/-- Whoever looks into the cache leaves the tasks as they are. -/
theorem spares_look (c : Cluster ρ) (node id : Nat) (cache : RowCache ρ) (m : Sample) :
    Spares id c ((c.setCache node cache).record m) := ⟨rfl, Nat.le_refl _⟩

/-- Whoever joins a batch starts tasks at most. -/
theorem spares_enqueue {id : Nat} (h : id < c.nextTask) (node : Nat) (n : Node ρ) (r : Registered ρ)
    (k : Key) (ticket : Ticket) : Spares id c (c.enqueue node n r k ticket) := by
  rw [Cluster.enqueue]
  generalize r.loader.join n.config.threshold k ticket = p
  obtain ⟨joined, loader⟩ := p
  have hset : Spares id c (c.setLoader node r.entity.segment loader) := ⟨rfl, Nat.le_refl _⟩
  have hid : id < (c.setLoader node r.entity.segment loader).nextTask := h
  cases joined with
  | waits => exact hset
  | opens | fills => exact hset.trans (spares_spawn hid _ _)
  | opensAndFills =>
    have hopened := spares_spawn hid node (.delay r.entity.segment r.loader.current.generation none)
    exact hset.trans (hopened.trans (spares_spawn (Nat.lt_of_lt_of_le hid hopened.nextTask) _ _))

namespace Hosts

/-- A load looks into the cache of the node as it looks into that of the service. -/
theorem look_eq (h : Hosts u node tk c s) {n : Node ρ} (hconfig : n.config = u.config)
    (hcache : n.cache = s.cache) (henabled : n.config.enabled = true) (k : Key) :
    n.cache.look c.clock u.entity k = u.look s k := by
  rw [Service.Setup.look, ← hconfig, if_pos henabled, hcache, h.clock]

/-- A load of which the cache knows is answered at once. -/
theorem beginLoad_known (h : Hosts u node tk c s) {k : Key} {row : Option ρ}
    (hknown : (u.look s k).1 = some row) (ticket : Ticket) :
    ∃ c', c.beginLoad node u.entity k ticket = (some (.ok row), c') ∧
      Hosts u node tk c' { s with cache := (u.look s k).2 } ∧ ∀ id, Spares id c c' := by
  obtain ⟨n, hn, hconfig, hcache, hloader⟩ := h.registered?
  have henabled : n.config.enabled = true := by
    by_contra hoff
    rw [Service.Setup.look, ← hconfig, if_neg hoff] at hknown
    cases hknown
  have hset := h.setCache (u.look s k).2
  rw [Cluster.beginLoad, hn]
  simp only [hloader, henabled, if_true, h.look_eq hconfig hcache henabled, hknown]
  exact ⟨_, rfl, hset.record _, fun id => spares_look _ _ _ _ _⟩

/-- A load of which the cache does not know joins a batch. -/
theorem beginLoad_unknown (h : Hosts u node tk c s) {k : Key} (hunknown : (u.look s k).1 = none) (l : Nat) :
    ∃ c', c.beginLoad node u.entity k (tk l) = (none, c') ∧
      Hosts u node tk c'
        { s with cache := (u.look s k).2, loader := (s.loader.join u.config.threshold k l).2 } ∧
      ∀ id < c.nextTask, Spares id c c' := by
  obtain ⟨n, hn, hconfig, hcache, hloader⟩ := h.registered?
  rw [Cluster.beginLoad, hn]
  by_cases henabled : n.config.enabled = true
  · have hset := h.setCache (u.look s k).2
    simp only [hloader, henabled, if_true, h.look_eq hconfig hcache henabled, hunknown]
    refine ⟨_, rfl, (hset.record _).enqueue hconfig k l, fun id hid => ?_⟩
    have hlooked := spares_look c node id (u.look s k).2 { metric := .misses, segment := u.entity.segment }
    exact hlooked.trans (spares_enqueue (Nat.lt_of_lt_of_le hid hlooked.nextTask) _ _ _ _ _)
  · have hsame : (u.look s k).2 = s.cache := by
      rw [Service.Setup.look, ← hconfig, if_neg henabled]
    simp only [hloader, henabled, Bool.false_eq_true, if_false, hsame]
    exact ⟨_, rfl, h.enqueue hconfig k l, fun id hid => spares_enqueue hid _ _ _ _ _⟩

end Hosts

/-! ## Answers -/

/-- What a task has heard of the loads for which it waits, when it hears of one of them. -/
def noted (id : Nat) (answers : List (Option (Loaded ρ))) (answer : Ticket × Loaded ρ) :
    List (Option (Loaded ρ)) :=
  if answer.1.task = id then answers.set answer.1.place (some answer.2) else answers

theorem tasks_wake (c : Cluster ρ) (id : Nat) : (c.wake id).tasks = c.tasks := by
  rw [wake]
  split <;> rfl

theorem mem_ready_wake {id : Nat} (h : id ∈ c.ready) (id' : Nat) : id ∈ (c.wake id').ready := by
  rw [wake]
  split
  · exact List.mem_append_left _ h
  · exact h

theorem mem_ready_wake_self {id : Nat} (h : c.tasks.contains id = true) : id ∈ (c.wake id).ready := by
  rw [wake]
  split
  · exact List.mem_append_right _ (List.mem_singleton_self id)
  · rename_i hno
    by_contra hready
    exact hno ⟨h, hready⟩

section

variable {id : Nat} {e : Entity ρ} {answers : List (Option (Loaded ρ))}
  {next : List (Loaded ρ) → Plan ρ (Outcome ρ)}

/-- Whoever is told something, nothing happens to a node. -/
theorem Hosts.deliver (h : Hosts u node tk c s) (a : Ticket × Loaded ρ) :
    Hosts u node tk (c.deliver a) s := by
  obtain ⟨ticket, x⟩ := a
  rw [Cluster.deliver]
  split
  · rw [wake]
    split <;> exact ⟨h.clock, h.node⟩
  · exact h

/-- A task that waits for loads hears what is told to its tickets. -/
theorem find?_deliver (h : c.tasks.find? id = some (node, .call e (.loading answers next)))
    (a : Ticket × Loaded ρ) :
    (c.deliver a).tasks.find? id = some (node, .call e (.loading (noted id answers a) next)) := by
  obtain ⟨ticket, x⟩ := a
  rw [Cluster.deliver, noted]
  split
  · rename_i node' e' answers' next' hfound
    rw [tasks_wake]
    show (c.tasks.modify ticket.task _).find? id = _
    rw [Dict.find?_modify]
    by_cases hid : id = ticket.task
    · rw [if_pos hid, if_pos hid.symm, h]
      rw [← hid, h] at hfound
      cases hfound
      rfl
    · rw [if_neg hid, if_neg fun he => hid he.symm, h]
  · rename_i hother
    rw [if_neg, h]
    rintro rfl
    exact hother _ _ _ _ h

/-- A task that can run can run when something has been told. -/
theorem mem_ready_deliver (h : id ∈ c.ready) (a : Ticket × Loaded ρ) : id ∈ (c.deliver a).ready := by
  obtain ⟨ticket, x⟩ := a
  rw [Cluster.deliver]
  split
  · refine mem_ready_wake ?_ _
    exact h
  · exact h

/-- A task that is told something can run. -/
theorem mem_ready_deliver_self (h : c.tasks.find? id = some (node, .call e (.loading answers next)))
    {a : Ticket × Loaded ρ} (ha : a.1.task = id) : id ∈ (c.deliver a).ready := by
  obtain ⟨ticket, x⟩ := a
  obtain rfl : ticket.task = id := ha
  rw [Cluster.deliver]
  simp only [h]
  refine mem_ready_wake_self ?_
  rw [Dict.contains]
  show ((c.tasks.modify ticket.task _).find? ticket.task).isSome = true
  rw [Dict.find?_modify, if_pos rfl, h]
  rfl

/-! ## Several answers -/

theorem Hosts.deliverAll (h : Hosts u node tk c s) (as : List (Ticket × Loaded ρ)) :
    Hosts u node tk (as.foldl Cluster.deliver c) s := by
  induction as generalizing c with
  | nil => exact h
  | cons a as ih => exact ih (h.deliver a)

theorem find?_deliverAll (h : c.tasks.find? id = some (node, .call e (.loading answers next)))
    (as : List (Ticket × Loaded ρ)) :
    (as.foldl Cluster.deliver c).tasks.find? id =
      some (node, .call e (.loading (as.foldl (noted id) answers) next)) := by
  induction as generalizing c answers with
  | nil => exact h
  | cons a as ih => exact ih (find?_deliver h a)

theorem mem_ready_deliverAll (h : id ∈ c.ready) (as : List (Ticket × Loaded ρ)) :
    id ∈ (as.foldl Cluster.deliver c).ready := by
  induction as generalizing c with
  | nil => exact h
  | cons a as ih => exact ih (mem_ready_deliver h a)

theorem mem_ready_deliverAll_of_mem (h : c.tasks.find? id = some (node, .call e (.loading answers next)))
    {as : List (Ticket × Loaded ρ)} {a : Ticket × Loaded ρ} (ha : a ∈ as) (hid : a.1.task = id) :
    id ∈ (as.foldl Cluster.deliver c).ready := by
  induction as generalizing c answers with
  | nil => cases ha
  | cons a' as ih =>
    rcases List.mem_cons.1 ha with rfl | ha
    · exact mem_ready_deliverAll (mem_ready_deliver_self h hid) as
    · exact ih (find?_deliver h a') ha

end

theorem length_noted (id : Nat) (answers : List (Option (Loaded ρ))) (a : Ticket × Loaded ρ) :
    (noted id answers a).length = answers.length := by
  rw [noted]
  split
  · exact List.length_set
  · rfl

theorem length_notedAll (id : Nat) (as : List (Ticket × Loaded ρ)) (answers : List (Option (Loaded ρ))) :
    (as.foldl (noted id) answers).length = answers.length := by
  induction as generalizing answers with
  | nil => rfl
  | cons a as ih => exact (ih _).trans (length_noted id answers a)

/-- At its place a task hears what is told to the ticket of the place, or it hears nothing. -/
theorem getElem?_notedAll (id p : Nat) (as : List (Ticket × Loaded ρ))
    {answers : List (Option (Loaded ρ))} (hp : p < answers.length) :
    (∃ x, (⟨id, p⟩, x) ∈ as ∧ (as.foldl (noted id) answers)[p]? = some (some x)) ∨
      (∀ x, (⟨id, p⟩, x) ∉ as) ∧ (as.foldl (noted id) answers)[p]? = answers[p]? := by
  induction as generalizing answers with
  | nil => exact .inr ⟨fun _ => nofun, rfl⟩
  | cons a as ih =>
    obtain ⟨⟨task, place⟩, y⟩ := a
    have hp' : p < (noted id answers (⟨task, place⟩, y)).length := by rwa [length_noted]
    rcases ih hp' with ⟨x, hx, hheard⟩ | ⟨hnone, hsame⟩
    · exact .inl ⟨x, List.mem_cons_of_mem _ hx, hheard⟩
    · rw [List.foldl_cons, hsame, noted]
      by_cases hself : task = id ∧ place = p
      · obtain ⟨rfl, rfl⟩ := hself
        refine .inl ⟨y, List.mem_cons_self, ?_⟩
        rw [if_pos rfl, List.getElem?_set_self hp]
      · refine .inr ⟨fun x hx => ?_, ?_⟩
        · rcases List.mem_cons.1 hx with heq | hx
          · cases heq
            exact hself ⟨rfl, rfl⟩
          · exact hnone x hx
        · split
          · rename_i htask
            exact List.getElem?_set_ne fun hplace => hself ⟨htask, hplace⟩
          · rfl

/-- When a batch answers, the node goes on without it, and the tickets of its loads are told what the loads are
told. -/
theorem Hosts.land (h : Hosts u node tk c s) (t g : Nat) :
    ∃ c', c.land t node u.entity.segment g Loader.reply =
        ((s.loader.reply g).1.map fun a => (tk a.1, a.2)).foldl Cluster.deliver c' ∧
      Hosts u node tk c' { s with loader := (s.loader.reply g).2 } ∧
      ∀ id ≠ t, c'.tasks.find? id = c.tasks.find? id ∧ (id ∈ c.ready → id ∈ c'.ready) := by
  obtain ⟨n, hn, -, -, hloader⟩ := h.node
  have hset := h.setLoader (s.loader.reply g).2
  rw [Cluster.land, hn, Option.bind_some, hloader]
  simp only [Loader.reply_map]
  refine ⟨_, rfl, ⟨hset.clock, hset.node⟩, fun id hid => ⟨?_, fun hready => ?_⟩⟩
  · show (c.tasks.erase t).find? id = _
    rw [Dict.find?_erase, if_neg hid]
  · exact List.mem_filter.2 ⟨hready, decide_eq_true hid⟩

theorem setLoader_setLoader (c : Cluster ρ) (node : Nat) (segment : String) (l l' : Loader ρ Ticket) :
    (c.setLoader node segment l).setLoader node segment l' = c.setLoader node segment l' := by
  have hnode : ((·.setLoader segment l') ∘ (·.setLoader segment l) : Node ρ → Node ρ) =
      (·.setLoader segment l') := by
    funext n
    simp only [Function.comp_apply, Node.setLoader, Dict.modify_modify]
    rfl
  simp only [setLoader, modifyNode, List.modify_modify_eq, hnode]

/-- The task of a batch breaks down: the node goes on as if the batch had heard that it has been broken off. -/
theorem Hosts.land_abandon (h : Hosts u node tk c s) {g : Nat} {b : Batch Nat} {epoch : Epoch}
    (hf : s.loader.flight? g = some { batch := b, stage := .asked epoch }) (t : Nat) :
    c.land t node u.entity.segment g Loader.abandon =
      (c.setLoader node u.entity.segment
        ((s.loader.settle g u.entity.key u.config.enabled (.error .aborted)).map tk)).land t node
          u.entity.segment g Loader.reply := by
  obtain ⟨n, hn, -, -, hloader⟩ := h.node
  obtain ⟨n', hn', -, -, hloader'⟩ :=
    (h.setLoader (s.loader.settle g u.entity.key u.config.enabled (.error .aborted))).node
  have hflight : (s.loader.map tk).flight? g = some { batch := b.map tk, stage := .asked epoch } := by
    rw [Loader.flight?_map, hf]
    rfl
  rw [Cluster.land, Cluster.land, hn, hn', Option.bind_some, Option.bind_some, hloader, hloader']
  simp only [Loader.abandon_eq hflight u.entity.key u.config.enabled, Loader.settle_map,
    setLoader_setLoader]

end ReadThrough.Cluster
