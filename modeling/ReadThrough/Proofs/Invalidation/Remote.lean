import ReadThrough.Cache.View
import ReadThrough.Cluster.Peers
import ReadThrough.Proofs.Invalidation.Message
/-!
# What others announce

A node that hears what another one has announced does to its own cache what it would have done had it made
the change itself, and announces nothing. Of payloads that come in one after another, those that can be read
and are not the node's own each take away what they are about, and move the epoch of their segment by one
(`Cache.find?_applyAll`, `Cache.epoch_applyAll`). So it makes no difference in which order they come in, nor,
to the entries, how often (`Cluster.remote_mirrors_local`).
-/

namespace ReadThrough

namespace Message

/-- Whether a message is about what is kept under a key of a segment. -/
def concerns (m : Message) (segment : String) (k : Key) : Bool :=
  m.segment = segment ∧ (m.key = none ∨ m.key = some k)

/-- The message that a payload brings to a process: none if it cannot be read, and none if the process has
sent it itself. -/
def foreign? (self : Uuid) (payload : String) : Option Message :=
  (decode? payload).filter (·.origin ≠ some self)

end Message

namespace Cache

variable {ν α : Type}

/-- Two caches have the same entries, expired or not, and the same epochs. -/
structure SameView (c c' : Cache ν) : Prop where
  find? : ∀ segment k, c.find? segment k = c'.find? segment k
  epoch : ∀ segment, c.epoch segment = c'.epoch segment

/-- The cache of a process when payloads have come in one after another. -/
def applyAll (self : Uuid) (payloads : List String) (c : Cache ν) : Cache ν :=
  payloads.foldl (fun c payload => (c.applyRemote self payload).2) c

/-! ## One payload -/

theorem find?_invalidate (c : Cache ν) (m : Message) (segment : String) (k : Key) :
    (c.invalidate m.segment m.key).find? segment k =
      if m.concerns segment k then none else c.find? segment k := by
  obtain ⟨action, s, key, origin⟩ := m
  cases key with
  | none =>
    rw [invalidate, find?_clearSegment]
    simp [Message.concerns, @eq_comm _ segment]
  | some k' =>
    rw [invalidate, find?_delete]
    simp [Message.concerns, @eq_comm _ segment, @eq_comm _ k]

/-- Invalidating moves the epoch of its segment, whether one key is meant or all. -/
theorem epoch_invalidate (c : Cache ν) (s : String) (key : Option Key) (segment : String) :
    (c.invalidate s key).epoch segment = { c.epoch segment with
      segment := (c.epoch segment).segment + if s = segment then 1 else 0 } := by
  have hmoves : (c.invalidate s key).epoch segment =
      if segment = s then { c.epoch segment with segment := (c.epoch segment).segment + 1 }
      else c.epoch segment := by
    cases key with
    | none => exact epoch_clearSegment c s segment
    | some k => exact epoch_delete c s segment k
  rw [hmoves]
  by_cases h : segment = s
  · simp [h]
  · simp [h, Ne.symm h]

/-- A payload takes away what its message is about, if it brings one. -/
theorem applyRemote_snd (c : Cache ν) (self : Uuid) (payload : String) :
    (c.applyRemote self payload).2 =
      (Message.foreign? self payload).elim c fun m => c.invalidate m.segment m.key := by
  rw [applyRemote, Message.foreign?]
  cases Message.decode? payload with
  | none => rfl
  | some m =>
    by_cases hself : m.origin = some self
    · simp [hself, Option.filter]
    · simp [hself, Option.filter]

/-- What another process has announced is done to the cache, and what the process has announced itself is
not. -/
theorem applyRemote_announcement (c : Cache ν) {self A : Uuid} (hA : A ≠ self) (action : Action)
    (segment : String) (key : Option Key) :
    c.applyRemote self (announcement A action segment key).encode =
      (.applied (announcement A action segment key), c.invalidate segment key) := by
  rw [applyRemote, Message.decode?_encode]
  exact if_neg fun h => hA (Option.some.inj h)

theorem applyRemote_own (c : Cache ν) (self : Uuid) (action : Action) (segment : String)
    (key : Option Key) :
    c.applyRemote self (announcement self action segment key).encode = (.skippedOwn, c) := by
  rw [applyRemote, Message.decode?_encode]
  exact if_pos rfl

theorem applyRemote_of_decode?_eq_none (c : Cache ν) (self : Uuid) {payload : String}
    (h : Message.decode? payload = none) : c.applyRemote self payload = (.rejected, c) := by
  rw [applyRemote, h]

/-! ## Many payloads -/

/-- If each of some steps takes an entry away or leaves it as it is, so do all of them together. -/
theorem find?_foldl {f : Cache ν → α → Cache ν} {gone : α → Bool} {segment : String} {k : Key}
    (hf : ∀ c a, (f c a).find? segment k = if gone a then none else c.find? segment k) (l : List α)
    (c : Cache ν) :
    (l.foldl f c).find? segment k = if l.any gone then none else c.find? segment k := by
  induction l generalizing c with
  | nil => rfl
  | cons a l ih =>
    rw [List.foldl_cons, ih, hf, List.any_cons]
    cases gone a <;> simp

theorem find?_applyAll (self : Uuid) (payloads : List String) (c : Cache ν) (segment : String) (k : Key) :
    (applyAll self payloads c).find? segment k =
      if payloads.any (fun p => (Message.foreign? self p).any (·.concerns segment k)) then none
      else c.find? segment k := by
  refine find?_foldl (fun c payload => ?_) payloads c
  rw [applyRemote_snd]
  cases Message.foreign? self payload with
  | none => rfl
  | some m => exact find?_invalidate c m segment k

/-- The epoch of a segment moves by one for every payload that brings a message about the segment. -/
theorem epoch_applyAll (self : Uuid) (payloads : List String) (c : Cache ν) (segment : String) :
    (applyAll self payloads c).epoch segment = { c.epoch segment with
      segment := (c.epoch segment).segment +
        .ofNat (payloads.countP fun p => (Message.foreign? self p).any (·.segment = segment)) } := by
  induction payloads generalizing c with
  | nil => simp [applyAll]
  | cons payload payloads ih =>
    show (applyAll self payloads (c.applyRemote self payload).2).epoch segment = _
    rw [ih, applyRemote_snd, List.countP_cons]
    cases Message.foreign? self payload with
    | none => simp
    | some m =>
      rw [Option.elim_some, epoch_invalidate]
      by_cases hm : m.segment = segment
      · simp [hm, UInt64.ofNat_add, UInt64.add_assoc, UInt64.add_comm 1]
      · simp [hm]

/-- It makes no difference in which order payloads come in. -/
theorem applyAll_perm (self : Uuid) {payloads payloads' : List String} (h : payloads.Perm payloads')
    (c : Cache ν) : SameView (applyAll self payloads c) (applyAll self payloads' c) where
  find? segment k := by rw [find?_applyAll, find?_applyAll, h.any_eq]
  epoch segment := by rw [epoch_applyAll, epoch_applyAll, h.countP_eq]

/-- To the entries it makes no difference how often payloads come in. -/
theorem find?_applyAll_congr (self : Uuid) {payloads payloads' : List String}
    (h : ∀ p, p ∈ payloads ↔ p ∈ payloads') (c : Cache ν) (segment : String) (k : Key) :
    (applyAll self payloads c).find? segment k = (applyAll self payloads' c).find? segment k := by
  have hany : ∀ q : String → Bool, payloads.any q = payloads'.any q := by
    intro q
    rw [Bool.eq_iff_iff, List.any_eq_true, List.any_eq_true]
    exact exists_congr fun p => and_congr_left fun _ => h p
  rw [find?_applyAll, find?_applyAll, hany]

end Cache

/-! ## Nodes -/

namespace Cluster

variable {ρ : Type} {c : Cluster ρ} {node : Nat} {n : Node ρ}

/-- A node is changed in the same way by two functions that agree on it. -/
theorem modifyNode_congr {f g : Node ρ → Node ρ} (hn : c.nodes[node]? = some n) (hfg : f n = g n) :
    c.modifyNode node f = c.modifyNode node g := by
  have hnodes : c.nodes.modify node f = c.nodes.modify node g := by
    refine List.ext_getElem? fun i => ?_
    rw [List.getElem?_modify, List.getElem?_modify]
    by_cases hi : node = i
    · subst hi
      simp [hn, hfg]
    · simp [hi]
  rw [modifyNode, hnodes, modifyNode]

/-- A node whose cache stays as it is stays as it is. -/
theorem setCache_self (hn : c.nodes[node]? = some n) : c.setCache node n.cache = c := by
  have hid : c.setCache node n.cache = c.modifyNode node id := modifyNode_congr hn rfl
  rw [hid, modifyNode, List.modify_id]

theorem clearLocal_eq (hn : c.nodes[node]? = some n) (segment : String) (key : Option Key) :
    c.clearLocal node segment key = c.setCache node (n.cache.invalidate segment key) :=
  modifyNode_congr hn rfl

/-- A node that is connected to the bus announces a change by starting a task that publishes it. -/
theorem announce_eq (hn : c.nodes[node]? = some n) (hbus : n.hasBus = true) (action : Action)
    (segment : String) (key : Option Key) :
    c.announce node action segment key true = (c.clearLocal node segment key).spawn node
      (.publish segment (announcement n.id action segment key).encode) := by
  have hnode : (c.clearLocal node segment key).nodes[node]? =
      some { n with cache := n.cache.invalidate segment key } := by
    show (c.nodes.modify node _)[node]? = _
    rw [List.getElem?_modify_eq, hn]
    rfl
  have hbus' : ({ n with cache := n.cache.invalidate segment key } : Node ρ).hasBus = true := hbus
  simp only [announce, hnode, hbus', Bool.not_true, Bool.false_eq_true, if_false, if_true]

/-- A node that hears something publishes nothing, and starts nothing that would. -/
theorem quiet_hear (c : Cluster ρ) (node : Nat) (item : Except BusError String) :
    (c.hear node item).2.bus = c.bus ∧ (c.hear node item).2.tasks = c.tasks := by
  rw [hear]
  cases c.nodes[node]? with
  | none => exact ⟨rfl, rfl⟩
  | some n =>
    simp only
    split <;> exact ⟨rfl, rfl⟩

/-- A node hears what another one has announced. -/
theorem hear_announcement (hn : c.nodes[node]? = some n) {A : Uuid} (hA : A ≠ n.id) (action : Action)
    (segment : String) (key : Option Key) :
    c.hear node (.ok (announcement A action segment key).encode) =
      (some (.applied (announcement A action segment key)),
        (c.clearLocal node segment key).record { metric := .received, segment }) := by
  simp only [hear, hn, Cache.hear, Cache.applyRemote_announcement _ hA, clearLocal_eq hn]
  rfl

/-- A node hears what does nothing to its cache. -/
theorem hear_of_idle (hn : c.nodes[node]? = some n) {payload : String} {outcome : RemoteOutcome}
    (h : n.cache.applyRemote n.id payload = (outcome, n.cache)) (hidle : ∀ m, outcome ≠ .applied m) :
    c.hear node (.ok payload) = (some outcome, c) := by
  simp only [hear, hn, Cache.hear, h, setCache_self hn]
  cases outcome with
  | applied m => exact absurd rfl (hidle m)
  | skippedOwn | rejected => rfl

/-- What one node announces of a change it has made, the others do to their caches as if they had made the
change themselves, and report the announcement; the node itself passes it over. What cannot be read is
rejected. Nobody publishes anything for having heard something. And payloads leave a cache with the same
entries and epochs in whatever order they come in, and with the same entries however often they do. -/
theorem remote_mirrors_local {a b : Nat} {A B : Node ρ} (hA : c.nodes[a]? = some A)
    (hB : c.nodes[b]? = some B) (hAB : A.id ≠ B.id) :
    (∀ action segment key,
      let message := announcement A.id action segment key
      (A.hasBus = true → c.announce a action segment key true =
        (c.clearLocal a segment key).spawn a (.publish segment message.encode)) ∧
      c.hear b (.ok message.encode) = (some (.applied message),
        (c.clearLocal b segment key).record { metric := .received, segment }) ∧
      c.hear a (.ok message.encode) = (some .skippedOwn, c)) ∧
    (∀ payload, Message.decode? payload = none → c.hear b (.ok payload) = (some .rejected, c)) ∧
    (∀ item, (c.hear b item).2.bus = c.bus ∧ (c.hear b item).2.tasks = c.tasks) ∧
    ∀ (cache : RowCache ρ) (payloads payloads' : List String),
      (payloads.Perm payloads' →
        (cache.applyAll B.id payloads).SameView (cache.applyAll B.id payloads')) ∧
      ((∀ p, p ∈ payloads ↔ p ∈ payloads') → ∀ segment k,
        (cache.applyAll B.id payloads).find? segment k =
          (cache.applyAll B.id payloads').find? segment k) := by
  refine ⟨fun action segment key => ⟨fun hbus => announce_eq hA hbus action segment key,
    hear_announcement hB hAB action segment key, ?_⟩, fun payload h => ?_, quiet_hear c b,
    fun cache payloads payloads' => ⟨fun h => Cache.applyAll_perm B.id h cache,
      fun h => Cache.find?_applyAll_congr B.id h cache⟩⟩
  · exact hear_of_idle hA (Cache.applyRemote_own _ _ action segment key) nofun
  · exact hear_of_idle hB (Cache.applyRemote_of_decode?_eq_none _ _ h) nofun

/-! ## Two nodes -/

/-- Two nodes that are connected to one bus. -/
def pair : Cluster Unit where
  nodes := [{ id := ⟨1⟩, link := .linked }, { id := ⟨2⟩, link := .linked }]
  random := .script [] 0 .identity

/-- The second node hears of a row and of a whole segment that the first one has announced, and then of the
row again. -/
theorem remote_mirrors_local_pair :
    let row := announcement ⟨1⟩ .clear "Article" (some (.text "a\"b"))
    let segment := announcement ⟨1⟩ .delete "Article" none
    pair.hear 1 (.ok row.encode) = (some (.applied row),
        (pair.clearLocal 1 "Article" (some (.text "a\"b"))).record
          { metric := .received, segment := "Article" }) ∧
      pair.hear 0 (.ok row.encode) = (some .skippedOwn, pair) ∧
      pair.hear 1 (.ok "news") = (some .rejected, pair) ∧
      ∀ cache : RowCache Unit,
        (cache.applyAll ⟨2⟩ [row.encode, segment.encode]).SameView
            (cache.applyAll ⟨2⟩ [segment.encode, row.encode]) ∧
          ∀ s k, (cache.applyAll ⟨2⟩ [row.encode, segment.encode, row.encode]).find? s k =
            (cache.applyAll ⟨2⟩ [row.encode, segment.encode]).find? s k := by
  intro row segment
  obtain ⟨hmirrors, hrejects, -, horder⟩ := remote_mirrors_local (c := pair) (a := 0) (b := 1)
    (A := { id := ⟨1⟩, link := .linked }) (B := { id := ⟨2⟩, link := .linked }) rfl rfl (by decide)
  obtain ⟨-, hhears, hskips⟩ := hmirrors .clear "Article" (some (.text "a\"b"))
  refine ⟨hhears, hskips, hrejects "news" (by decide +kernel), fun cache => ⟨?_, ?_⟩⟩
  · exact (horder cache _ _).1 (.swap _ _ [])
  · exact (horder cache _ _).2 (by simp [or_comm])

end Cluster

end ReadThrough
