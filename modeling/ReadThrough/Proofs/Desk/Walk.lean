import ReadThrough.Proofs.Desk.Deeds
import ReadThrough.Proofs.Desk.Page
import ReadThrough.Proofs.Desk.Transparency
/-!
# Walks from page to page

A walk asks for the first page after no cursor, and then for page after page, each after the cursor of the
page before, until a page is empty (`Setup.Walks`). Between two pages the desk may do what it likes, as long
as it does not remove the row that the cursor names. A walk repeats nothing, since each page is after all
that has been returned before, and it leaves nothing out, since no page leaves out what comes before its last
row (`Walked.page`). If nothing is done between its pages it comes to an end (`Walked.exists_end`).
-/

namespace ReadThrough.Desk

open Std

variable {ρ : Type}

/-! ## Walks -/

/-- A page of a walk. -/
structure Visit (ρ : Type) where
  /-- What is done before the page is asked for. -/
  deeds : List (Deed ρ)
  /-- The stock when the page is asked for. -/
  stock : Stock ρ
  answer : Resolved ρ

namespace Visit

/-- The rows of a page. -/
def items (v : Visit ρ) : List ρ := v.answer.toOption.elim [] (·.items)

/-- The cursor of a page. -/
def endCursor (v : Visit ρ) : Option String := v.answer.toOption.bind (·.endCursor)

/-- Whether there is a row under a key, in the category that is asked for, when a page is asked for. -/
def Offers (g : Engine ρ) (category : Option String) (k : Key) (v : Visit ρ) : Prop :=
  ∃ row, v.stock.rows.get? k = some row ∧ g.InCategory v.stock category row

/-- A page as it should be: not an error, of so many rows at most, and of rows that are in the table and in
the category. -/
structure Proper (g : Engine ρ) (category : Option String) (v : Visit ρ) : Prop where
  answered : ∃ x, v.answer = .ok x
  length_le : v.items.length ≤ max 1 g.limits.maxFirst.toNat
  offered : ∀ row ∈ v.items, v.stock.rows.get? (g.entity.key row) = some row ∧
    g.InCategory v.stock category row

end Visit

/-- The cursor in use after some pages: that of the last of them. -/
def cursor (visits : List (Visit ρ)) : Option String := visits.getLast?.bind (·.endCursor)

/-- The row that the cursor in use names: the last row of the last page. -/
def named (visits : List (Visit ρ)) : Option ρ := visits.getLast?.bind (·.items.getLast?)

/-- The keys of all rows that have been returned. -/
def keys (g : Engine ρ) (visits : List (Visit ρ)) : List Key :=
  visits.flatMap fun v => v.items.map g.entity.key

/-- A desk may do all this while a walk waits for its next page: the row that the cursor names stays. -/
def Spares (g : Engine ρ) (visits : List (Visit ρ)) (deeds : List (Deed ρ)) : Prop :=
  ∀ row ∈ named visits, .change (.remove (g.entity.key row)) ∉ deeds

namespace Setup

/-- A desk walks from page to page, and answers a request each time. The walk goes on as long as there is a
cursor. -/
inductive Walks (u : Setup ρ) (r : Request) (first : Option UInt32) (d₀ : Desk ρ) :
    List (Visit ρ) → Desk ρ → Prop where
  | start : Walks u r first d₀ [] d₀
  | page {visits : List (Visit ρ)} {d d₁ d₂ d₃ : Desk ρ} {deeds : List (Deed ρ)}
      {xs : List (Resolved ρ)} {x : Resolved ρ} (walk : Walks u r first d₀ visits d)
      (ongoing : visits = [] ∨ (cursor visits).isSome = true) (spares : Spares u.engine visits deeds)
      (performs : u.Performs d deeds xs d₁) (idle : u.Idles d₁ d₂)
      (does : u.Does d₂ (.resolve (r.following (cursor visits) first)) [x] d₃) :
      Walks u r first d₀ (visits ++ [{ deeds, stock := d₂.stock, answer := x }]) d₃

end Setup

variable {u : Setup ρ} {r : Request} {first : Option UInt32} {visits : List (Visit ρ)} {d d' : Desk ρ}

theorem keys_append (g : Engine ρ) (visits : List (Visit ρ)) (v : Visit ρ) :
    keys g (visits ++ [v]) = keys g visits ++ v.items.map g.entity.key := by
  rw [keys, List.flatMap_append, List.flatMap_singleton]
  rfl

theorem named_append (visits : List (Visit ρ)) (v : Visit ρ) :
    named (visits ++ [v]) = v.items.getLast? := by
  rw [named, List.getLast?_concat]
  rfl

theorem cursor_append (visits : List (Visit ρ)) (v : Visit ρ) :
    cursor (visits ++ [v]) = v.endCursor := by
  rw [cursor, List.getLast?_concat]
  rfl

/-- The row that the cursor in use names has been returned. -/
theorem mem_keys_of_named {g : Engine ρ} {row : ρ} (h : row ∈ named visits) :
    g.entity.key row ∈ keys g visits := by
  obtain ⟨v, hv, hrow⟩ := Option.bind_eq_some_iff.1 h
  exact List.mem_flatMap.2
    ⟨v, List.mem_of_getLast? hv, List.mem_map_of_mem (List.mem_of_getLast? hrow)⟩

/-- What is known of a walk and of the desk where it has come to: the desk is coherent and its rows hold
their keys; the cursor in use is that of the row it names, which is there; no key that has been returned
comes after that row, and no key that was offered all along and does not come after it is left out. -/
structure Walked (u : Setup ρ) (category : Option String) (visits : List (Visit ρ)) (d : Desk ρ) : Prop where
  coherent : Coherent u d
  keyed : ∀ k row, d.stock.rows.get? k = some row → u.engine.entity.Keyed row
  cursor_eq : cursor visits = (named visits).map fun row => Cursor.encode (u.engine.entity.key row)
  there : ∀ row ∈ named visits, (d.stock.rows.get? (u.engine.entity.key row)).isSome = true
  pages : ∀ v ∈ visits, v.Proper u.engine category
  sorted : (keys u.engine visits).Pairwise fun k k' => compare k k' = .lt
  isLE_named : ∀ row ∈ named visits, ∀ k ∈ keys u.engine visits,
    (compare k (u.engine.entity.key row)).isLE = true
  complete : visits ≠ [] → ∀ k, (∀ v ∈ visits, v.Offers u.engine category k) →
    (∀ row ∈ named visits, (compare k (u.engine.entity.key row)).isLE = true) → k ∈ keys u.engine visits

theorem walked_start (hd : Coherent u d) (hkeyed : ∀ k row, d.stock.rows.get? k = some row →
    u.engine.entity.Keyed row) (category : Option String) : Walked u category [] d where
  coherent := hd
  keyed := hkeyed
  cursor_eq := rfl
  there := nofun
  pages := nofun
  sorted := .nil
  isLE_named := nofun
  complete := fun h => absurd rfl h

theorem Coherent.exists_resolve (hd : Coherent u d) (hlimit : u.config.fetchTimeout = none) (r : Request) :
    ∃ x d', u.Does d (.resolve r) [x] d' := by
  obtain ⟨x, d', hcarries⟩ := (Realizes.resolve hlimit r).returns d hd
  exact ⟨x, d', .resolve hcarries⟩

namespace Walked

variable {category : Option String} {v : Visit ρ} (hlimit : u.config.fetchTimeout = none)
include hlimit

/-- What is done between two pages, and spares the row that the cursor names, does not lead astray. -/
theorem between (h : Walked u category visits d) {deeds : List (Deed ρ)} {xs : List (Resolved ρ)}
    {d₁ : Desk ρ} (hspares : Spares u.engine visits deeds)
    (hwritten : ∀ w, .change w ∈ deeds → ∀ row ∈ w.row?, u.engine.entity.Keyed row)
    (hperforms : u.Performs d deeds xs d₁) (hidle : u.Idles d₁ d') : Walked u category visits d' := by
  obtain ⟨hd₁, hall⟩ := h.coherent.of_performs hlimit hperforms
  obtain ⟨hd', hstock⟩ := hd₁.of_idles hlimit hidle
  have hrows : d'.stock = (u.engine.performAll d.stock deeds).2 := by
    rw [hstock, hall]
  refine { h with coherent := hd', keyed := ?_, there := ?_ }
  · rw [hrows]
    exact Engine.keyed_performAll hwritten h.keyed
  · intro row hrow
    rw [hrows]
    exact Engine.isSome_performAll (hspares row hrow) (h.there row hrow)

omit hlimit in
/-- What has been returned comes before all rows of the page after the row that the cursor names. -/
theorem lt_of_isPage (h : Walked u category visits d)
    (hongoing : visits = [] ∨ (cursor visits).isSome = true) {n : Nat} {items : List ρ}
    (hpage : u.engine.IsPage d.stock category ((named visits).map u.engine.entity.key) n items) {k : Key}
    (hk : k ∈ keys u.engine visits) {row : ρ} (hrow : row ∈ items) :
    compare k (u.engine.entity.key row) = .lt := by
  cases hnamed : named visits with
  | none =>
    have hnone : visits = [] := by
      rcases hongoing with hnil | hsome
      · exact hnil
      · rw [h.cursor_eq, hnamed] at hsome
        cases hsome
    rw [hnone] at hk
    cases hk
  | some last =>
    have hafter := hpage.after row hrow (u.engine.entity.key last) (by rw [hnamed]; rfl)
    exact TransCmp.lt_of_isLE_of_lt (h.isLE_named last hnamed k hk) hafter

omit hlimit in
/-- What has been offered all along, and does not come after the last row of the page, has been returned
before or is on the page. -/
theorem mem_of_isPage (h : Walked u category visits d) {n : Nat} {items : List ρ}
    (hpage : u.engine.IsPage d.stock category ((named visits).map u.engine.entity.key) n items) {row : ρ}
    (hrow : d.stock.rows.get? (u.engine.entity.key row) = some row)
    (hcategory : u.engine.InCategory d.stock category row)
    (hoffers : ∀ v ∈ visits, v.Offers u.engine category (u.engine.entity.key row))
    (hlast : ∀ last ∈ items.getLast?,
      (compare (u.engine.entity.key row) (u.engine.entity.key last)).isLE = true) :
    u.engine.entity.key row ∈ keys u.engine visits ∨ row ∈ items := by
  by_cases hafter : ∀ k ∈ (named visits).map u.engine.entity.key, compare k (u.engine.entity.key row) = .lt
  · exact .inr (hpage.complete row hrow hcategory hafter hlast)
  -- What does not come after the row that the page starts with has been returned before.
  · push Not at hafter
    obtain ⟨k, hk, hle⟩ := hafter
    obtain ⟨last, hnamed, rfl⟩ := Option.map_eq_some_iff.1 hk
    have hne : visits ≠ [] := by
      rintro rfl
      cases hnamed
    refine .inl (h.complete hne _ hoffers fun last' hlast' => ?_)
    obtain rfl := Option.some.inj (hnamed.symm.trans hlast')
    exact Key.isLE_of_not_lt hle

/-- The request for the next page is answered with the page after the row that the cursor names. -/
theorem does_following (h : Walked u r.category visits d) (hknown : u.engine.Knows d.stock r.category)
    {x : Resolved ρ} (hdoes : u.Does d (.resolve (r.following (cursor visits) first)) [x] d') :
    Coherent u d' ∧ d'.stock = d.stock ∧ ∃ y, x = .ok y ∧
      y.endCursor = y.items.getLast?.map (fun row => Cursor.encode (u.engine.entity.key row)) ∧
      u.engine.IsPage d.stock r.category ((named visits).map u.engine.entity.key)
        (u.engine.limits.first first).toNat y.items := by
  obtain ⟨hd', hperform⟩ := h.coherent.of_does hlimit hdoes
  have hcursor : cursor visits = ((named visits).map u.engine.entity.key).map Cursor.encode := by
    rw [h.cursor_eq, Option.map_map]
    rfl
  have hthere : ∀ k ∈ (named visits).map u.engine.entity.key, (d.stock.rows.get? k).isSome = true := by
    intro k hk
    obtain ⟨row, hrow, rfl⟩ := Option.map_eq_some_iff.1 hk
    exact h.there row hrow
  obtain ⟨y, hanswer, hend, hpage⟩ := perform_following h.coherent h.keyed r first hknown hthere
  rw [← hcursor, hperform] at hanswer
  obtain ⟨rfl, hstock⟩ : x = .ok y ∧ d'.stock = d.stock := by
    simpa using hanswer
  exact ⟨hd', hstock, y, rfl, hend, hpage⟩

/-- One page further, nothing is repeated and nothing is left out. -/
theorem page (h : Walked u r.category visits d) (hongoing : visits = [] ∨ (cursor visits).isSome = true)
    (hknown : u.engine.Knows d.stock r.category) {x : Resolved ρ}
    (hdoes : u.Does d (.resolve (r.following (cursor visits) first)) [x] d') (deeds : List (Deed ρ)) :
    Walked u r.category (visits ++ [{ deeds, stock := d.stock, answer := x }]) d' := by
  obtain ⟨hd', hstock, y, rfl, hend, hpage⟩ := h.does_following hlimit hknown hdoes
  refine ⟨hd', hstock ▸ h.keyed, ?_, ?_, ?_, ?_, ?_, ?_⟩
  · rw [cursor_append, named_append]
    exact hend
  · intro row hrow
    rw [named_append] at hrow
    rw [hstock, (hpage.offered row (List.mem_of_getLast? hrow)).1]
    rfl
  · intro v hv
    rcases List.mem_append.1 hv with hv | hv
    · exact h.pages v hv
    · rw [List.mem_singleton.1 hv]
      exact ⟨⟨y, rfl⟩, hpage.length_le.trans (u.engine.limits.first_bounds first).2, hpage.offered⟩
  · rw [keys_append, List.pairwise_append, List.pairwise_map]
    refine ⟨h.sorted, hpage.sorted, fun k hk k' hk' => ?_⟩
    obtain ⟨row, hrow, rfl⟩ := List.mem_map.1 hk'
    exact h.lt_of_isPage hongoing hpage hk hrow
  · intro row hrow k hk
    rw [named_append] at hrow
    rw [keys_append] at hk
    rcases List.mem_append.1 hk with hk | hk
    · rw [h.lt_of_isPage hongoing hpage hk (List.mem_of_getLast? hrow)]
      rfl
    · obtain ⟨row', hrow', rfl⟩ := List.mem_map.1 hk
      exact isLE_of_getLast? hpage.sorted hrow' hrow
  · intro _ k hoffers hlast
    rw [named_append] at hlast
    rw [keys_append, List.mem_append]
    obtain ⟨row, hrow, hcategory⟩ := hoffers _ (List.mem_append_right _ (List.mem_singleton_self _))
    obtain rfl := h.coherent.keyed k row hrow
    have hbefore : ∀ v ∈ visits, v.Offers u.engine r.category (u.engine.entity.key row) :=
      fun v hv => hoffers v (List.mem_append_left _ hv)
    exact (h.mem_of_isPage hpage hrow hcategory hbefore hlast).imp_right List.mem_map_of_mem

omit hlimit in
/-- As long as the last page has a row, the walk has a cursor. -/
theorem ongoing_of_named (h : Walked u category visits d) {row : ρ} (hrow : row ∈ named visits) :
    (cursor visits).isSome = true := by
  rw [h.cursor_eq, hrow]
  rfl

omit hlimit in
/-- When a page is empty, all that has been offered all along has been returned. -/
theorem mem_keys_of_over (h : Walked u category visits d) (hne : visits ≠ []) (hover : named visits = none)
    {k : Key} (hoffers : ∀ v ∈ visits, v.Offers u.engine category k) : k ∈ keys u.engine visits := by
  refine h.complete hne k hoffers fun row hrow => ?_
  rw [hover] at hrow
  cases hrow

omit hlimit in
/-- If there is anything to return, a walk goes on after its first page. -/
theorem ongoing_of_offers (h : Walked u category [v] d) {k : Key} (hoffers : v.Offers u.engine category k) :
    (cursor [v]).isSome = true := by
  cases hnamed : named [v] with
  | some row => exact h.ongoing_of_named hnamed
  | none =>
    have hmem := h.mem_keys_of_over (List.cons_ne_nil _ _) hnamed (List.forall_mem_singleton.2 hoffers)
    have hempty : v.items = [] := List.getLast?_eq_none_iff.1 hnamed
    rw [keys, List.flatMap_singleton, hempty] at hmem
    cases hmem

/-- The keys of the table that are still before a walk. -/
def left (g : Engine ρ) (visits : List (Visit ρ)) (s : Stock ρ) : List Key :=
  s.rows.rows.keys.filter fun k => (named visits).all fun row => compare (g.entity.key row) k = .lt

omit hlimit in
/-- With every page that has a row, less is before the walk. -/
theorem length_left_lt (h : Walked u category (visits ++ [v]) d) {last : ρ}
    (hlast : v.items.getLast? = some last) :
    (left u.engine (visits ++ [v]) v.stock).length < (left u.engine visits v.stock).length := by
  have hmem := List.mem_of_getLast? hlast
  have hsorted := h.sorted
  rw [keys_append, List.pairwise_append] at hsorted
  have hpassed : ∀ row ∈ named visits, compare (u.engine.entity.key row) (u.engine.entity.key last) = .lt :=
    fun row hrow => hsorted.2.2 _ (mem_keys_of_named hrow) _ (List.mem_map_of_mem hmem)
  have hrest : left u.engine (visits ++ [v]) v.stock =
      (left u.engine visits v.stock).filter fun k => compare (u.engine.entity.key last) k = .lt := by
    rw [left, left, List.filter_filter, named_append, hlast]
    refine List.filter_congr fun k _ => ?_
    rw [Option.all_some, eq_comm, Bool.and_eq_left_iff_imp]
    intro hk
    rw [Option.all_eq_true]
    exact fun row hrow => decide_eq_true (TransCmp.lt_trans (hpassed row hrow) (of_decide_eq_true hk))
  rw [hrest, List.length_filter_lt_length_iff_exists]
  have hproper := h.pages v (List.mem_append_right _ (List.mem_singleton_self _))
  have hthere : u.engine.entity.key last ∈ v.stock.rows.rows.keys := by
    refine Dict.mem_keys.2 ?_
    show (v.stock.rows.get? _).isSome = true
    rw [(hproper.offered last hmem).1]
    rfl
  refine ⟨u.engine.entity.key last, List.mem_filter.2 ⟨hthere, ?_⟩, ?_⟩
  · rw [Option.all_eq_true]
    exact fun row hrow => decide_eq_true (hpassed row hrow)
  · rw [ReflOrd.compare_self]
    nofun

/-- Whatever is done before the next page, the walk comes to it. -/
theorem exists_page {d₀ : Desk ρ} (h : Walked u r.category visits d) (hwalk : u.Walks r first d₀ visits d)
    (hongoing : visits = [] ∨ (cursor visits).isSome = true) {deeds : List (Deed ρ)}
    (hspares : Spares u.engine visits deeds)
    (hwritten : ∀ w, .change w ∈ deeds → ∀ row ∈ w.row?, u.engine.entity.Keyed row)
    (hknown : u.engine.Knows (u.engine.performAll d.stock deeds).2 r.category) :
    ∃ v d', v.deeds = deeds ∧ v.stock = (u.engine.performAll d.stock deeds).2 ∧ d'.stock = v.stock ∧
      u.Walks r first d₀ (visits ++ [v]) d' ∧ Walked u r.category (visits ++ [v]) d' := by
  obtain ⟨xs, d₁, hperforms⟩ := h.coherent.exists_performs hlimit deeds
  have hbetween := h.between hlimit hspares hwritten hperforms (idles_self u d₁)
  obtain ⟨x, d', hdoes⟩ := hbetween.coherent.exists_resolve hlimit (r.following (cursor visits) first)
  have hstock : d₁.stock = (u.engine.performAll d.stock deeds).2 := by
    rw [(h.coherent.of_performs hlimit hperforms).2]
  rw [← hstock] at hknown ⊢
  exact ⟨_, d', rfl, rfl, (hbetween.does_following hlimit hknown hdoes).2.1,
    hwalk.page hongoing hspares hperforms (idles_self u d₁) hdoes,
    hbetween.page hlimit hongoing hknown hdoes deeds⟩

/-- If nothing is done before the next pages, a walk that can go on comes to an end. -/
theorem exists_end_of_ongoing {d₀ : Desk ρ} (h : Walked u r.category visits d)
    (hwalk : u.Walks r first d₀ visits d) (hongoing : visits = [] ∨ (cursor visits).isSome = true)
    (hknown : u.engine.Knows d.stock r.category) :
    ∃ pages d', u.Walks r first d₀ (visits ++ pages) d' ∧ (∃ v ∈ pages.getLast?, v.items = []) ∧
      ∀ v ∈ pages, v.deeds = [] ∧ v.stock = d.stock := by
  generalize hleft : (left u.engine visits d.stock).length = n
  -- The induction is on what is still before the walk.
  induction n using Nat.strongRecOn generalizing visits d with
  | ind n ih =>
    obtain ⟨v, d', hdeeds, hv, hstock, hwalk', hnext⟩ :=
      h.exists_page hlimit hwalk hongoing (fun row _ => List.not_mem_nil) nofun hknown
    have hv : v.stock = d.stock := hv
    cases hlast : v.items.getLast? with
    | none =>
      refine ⟨[v], d', hwalk', ⟨v, rfl, List.getLast?_eq_none_iff.1 hlast⟩, fun v' hv' => ?_⟩
      rw [List.mem_singleton.1 hv']
      exact ⟨hdeeds, hv⟩
    | some last =>
      have hless := hnext.length_left_lt hlast
      have hgoing := hnext.ongoing_of_named ((named_append visits v).trans hlast)
      rw [hv] at hstock hless
      rw [hleft] at hless
      obtain ⟨pages, d'', hwalk'', ⟨v', hv', hempty⟩, hidle⟩ :=
        ih _ hless hnext hwalk' (.inr hgoing) (hstock ▸ hknown) (by rw [hstock])
      rw [List.append_assoc] at hwalk''
      refine ⟨v :: pages, d'', hwalk'', ⟨v', List.mem_getLast?_cons hv', hempty⟩, fun w hw => ?_⟩
      rcases List.mem_cons.1 hw with rfl | hw
      · exact ⟨hdeeds, hv⟩
      · rw [← hstock]
        exact hidle w hw

/-- If nothing is done before the next pages, if there are any, a walk comes to an end. -/
theorem exists_end {d₀ : Desk ρ} (h : Walked u r.category visits d)
    (hwalk : u.Walks r first d₀ visits d) (hne : visits ≠ []) (hknown : u.engine.Knows d.stock r.category) :
    ∃ pages d', u.Walks r first d₀ (visits ++ pages) d' ∧
      (∃ v ∈ (visits ++ pages).getLast?, v.items = []) ∧ ∀ v ∈ pages, v.deeds = [] ∧ v.stock = d.stock := by
  cases hnamed : named visits with
  | none =>
    obtain ⟨v, hv⟩ := Option.ne_none_iff_exists'.1 (mt List.getLast?_eq_none_iff.1 hne)
    rw [named, hv, Option.bind_some, List.getLast?_eq_none_iff] at hnamed
    refine ⟨[], d, ?_, ⟨v, ?_, hnamed⟩, nofun⟩
    · rw [List.append_nil]
      exact hwalk
    · rw [List.append_nil]
      exact hv
  | some row =>
    obtain ⟨pages, d', hwalk', ⟨v, hv, hempty⟩, hidle⟩ :=
      h.exists_end_of_ongoing hlimit hwalk (.inr (h.ongoing_of_named hnamed)) hknown
    exact ⟨pages, d', hwalk', ⟨v, List.mem_getLast?_append_of_mem_getLast? hv, hempty⟩, hidle⟩

end Walked

/-- So it goes for whole walks. -/
theorem walked_of_walks (hlimit : u.config.fetchTimeout = none) {d₀ : Desk ρ} (hd₀ : Coherent u d₀)
    (hkeyed : ∀ k row, d₀.stock.rows.get? k = some row → u.engine.entity.Keyed row)
    (hwalk : u.Walks r first d₀ visits d)
    (hwritten : ∀ v ∈ visits, ∀ w, .change w ∈ v.deeds → ∀ row ∈ w.row?, u.engine.entity.Keyed row)
    (hknown : ∀ v ∈ visits, u.engine.Knows v.stock r.category) : Walked u r.category visits d := by
  induction hwalk with
  | start => exact walked_start hd₀ hkeyed r.category
  | page walk ongoing spares performs idle does ih =>
    have hold := ih (fun v hv => hwritten v (List.mem_append_left _ hv))
      (fun v hv => hknown v (List.mem_append_left _ hv))
    have hbetween := hold.between hlimit spares
      (hwritten _ (List.mem_append_right _ List.mem_cons_self)) performs idle
    exact hbetween.page hlimit ongoing (hknown _ (List.mem_append_right _ List.mem_cons_self)) does _

end ReadThrough.Desk
