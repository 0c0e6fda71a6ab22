import ReadThrough.Proofs.Desk.Refusal
import ReadThrough.Proofs.Desk.Roll
/-!
# What a page says of the next

A page after a cursor says how many rows match, and whether there is a next page. It counts all rows of the
category, those before the cursor included. So it may promise a next page where there is none, but it never
denies one (`Announces.sound`), and without a cursor it is right (`Announces.exact`). That holds for every
cursor, whether it can be read or not and whatever row it names, and for every category, known or not
(`next_page_sound`).
-/

namespace ReadThrough

open Std

variable {ρ : Type}

/-! ## Rows after a key -/

/-- Whether a row comes after a key by the key column, if there is a key. -/
def Entity.Past (e : Entity ρ) (start : Option Key) (row : ρ) : Prop :=
  ∀ k ∈ start, ∃ v, e.value row e.keyColumn = some v ∧ compare v k.toValue = .gt

theorem Filter.accepts_after_iff (e : Entity ρ) (start : Option Key) (row : ρ) :
    Filter.accepts (start.toList.map (after e)) e row = true ↔ e.Past start row := by
  cases start with
  | none => exact ⟨fun _ => nofun, fun _ => rfl⟩
  | some k =>
    cases hv : e.value row e.keyColumn <;>
      simp [accepts, after, Condition.holds, Comparison.holds, Entity.Past, hv]

/-- A row that holds its key in the key column comes after another key if its key does. -/
theorem Entity.past_iff {e : Entity ρ} {row : ρ} (h : e.Keyed row) (start : Option Key) :
    e.Past start row ↔ ∀ k ∈ start, compare k (e.key row) = .lt := by
  rw [← Filter.accepts_after_iff, Filter.accepts_after h]

namespace Engine

variable {g : Engine ρ} {s : Stock ρ} {category : Option String} {rows : List ρ}

/-- What a page of rows after a key says of all the rows that match. -/
structure Announces (g : Engine ρ) (rows : List ρ) (start : Option Key) (items : List ρ) (c : Connection) :
    Prop where
  offered : ∀ row ∈ items, row ∈ rows ∧ g.entity.Past start row
  total : c.totalCount.toNat = rows.length
  sound : c.hasNextPage = false → ∀ row ∈ rows, g.entity.Past start row → row ∈ items
  exact : start = none → (c.hasNextPage = true ↔ ∃ row ∈ rows, row ∉ items)
  ended : c.endCursor = none ↔ items = []
  endCursor : ∀ cursor ∈ c.endCursor, ∃ last ∈ items.getLast?,
    Cursor.decode? cursor = some (g.entity.key last)

/-- Of rows that are all different, some are left out of the first exactly if there are more. -/
theorem exists_notMem_take_iff {α : Type} {l : List α} (h : l.Nodup) (n : Nat) :
    (∃ a ∈ l, a ∉ l.take n) ↔ n < l.length := by
  constructor
  · rintro ⟨a, ha, hnot⟩
    by_contra hall
    rw [List.take_of_length_le (Nat.not_lt.1 hall)] at hnot
    exact hnot ha
  · intro hn
    refine ⟨l[n], List.getElem_mem hn, fun hfirst => ?_⟩
    have hrest : l[n] ∈ l.drop n := by
      rw [List.drop_eq_getElem_cons hn]
      exact List.mem_cons_self
    exact List.disjoint_take_drop h (Nat.le_refl n) hfirst hrest

/-- What the answer with the first rows after a key says is right, if the rows can be counted. -/
theorem announces_pageAnswer (hs : s.rows.WellKeyed g.entity) (hsize : s.rows.size < 2 ^ 64) {f : Filter}
    (hrows : g.IsRoll s category (s.rows.inOrder g.entity f)) (start : Option Key) (n : UInt32) {items : List ρ}
    (hitems : g.rowsAfter s f start n.toNat = items) :
    ∃ c, (g.pageAnswer s f n items).connection = some c ∧
      g.Announces (s.rows.inOrder g.entity f) start items c := by
  generalize hall : s.rows.inOrder g.entity f = all at hrows
  let left := all.filter (Filter.accepts (start.toList.map (Filter.after g.entity)) g.entity)
  have htake : items = left.take n.toNat := by
    rw [← hitems, rowsAfter, hs.inOrder_append, hall]
  have hmem : ∀ row, row ∈ left ↔ row ∈ all ∧ g.entity.Past start row := fun row =>
    List.mem_filter.trans (and_congr_right fun _ => Filter.accepts_after_iff _ _ _)
  have htotal : (UInt64.ofNat (s.rows.matching g.entity f).length).toNat = all.length := by
    rw [← hall, Table.length_inOrder]
    exact UInt64.toNat_ofNat_of_lt' (Nat.lt_of_le_of_lt (s.rows.length_matching_le _ _) hsize)
  have hnext : n.toUInt64 < UInt64.ofNat (s.rows.matching g.entity f).length ↔ n.toNat < all.length := by
    rw [UInt64.lt_iff_toNat_lt, htotal, UInt32.toNat_toUInt64]
  refine ⟨_, rfl, ?_, htotal, ?_, ?_, ?_, ?_⟩
  · intro row hrow
    rw [htake] at hrow
    exact (hmem row).1 (List.mem_of_mem_take hrow)
  · -- There are no more rows after the key than there are in all.
    intro hlast row hrow hpast
    have hfew : all.length ≤ n.toNat := Nat.not_lt.1 (mt hnext.2 (of_decide_eq_false hlast))
    rw [htake, List.take_of_length_le (Nat.le_trans (List.length_filter_le _ _) hfew)]
    exact (hmem row).2 ⟨hrow, hpast⟩
  · rintro rfl
    have hwhole : left = all := List.filter_eq_self.2 fun row _ => rfl
    rw [decide_eq_true_iff, hnext, htake, hwhole, exists_notMem_take_iff hrows.nodup]
  · rw [Option.map_eq_none_iff, List.getLast?_eq_none_iff]
  · intro cursor hcursor
    obtain ⟨last, hlast, rfl⟩ := Option.map_eq_some_iff.1 hcursor
    exact ⟨last, hlast, Cursor.decode?_encode _⟩

/-- Nothing is said of a category that there is not, but that no row is in it. -/
theorem announces_empty (start : Option Key) : g.Announces [] start [] {} where
  offered := nofun
  total := rfl
  sound := nofun
  exact := fun _ => ⟨nofun, nofun⟩
  ended := ⟨fun _ => rfl, fun _ => rfl⟩
  endCursor := nofun

end Engine

namespace Desk

open Engine

variable {u : Setup ρ} {d : Desk ρ} {r : Request} {after : Option String} {first : Option UInt32}

/-- Rows are not counted by an undeclared column. -/
theorem run_count_error {g : Engine ρ} {s : Stock ρ} {f : Filter}
    (hf : ¬ ∀ c ∈ f, g.entity.hasColumn c.column = true) :
    ∃ err, (Query.count f : Query ρ UInt64).run.run g.answer s = (.error err, s) := by
  obtain ⟨fault, hcheck⟩ := FindOptions.exists_check_eq (e := g.entity) (o := { filter := f }) fun h => hf h.filter
  refine ⟨.store (.invalidInput fault), ?_⟩
  show (Except.mapError _ (s.rows.count g.entity f), _) = _
  rw [Table.count, hcheck]
  rfl

/-- On the stock alone, if a request for a page after a cursor is answered, what the page says is right. -/
theorem announces_of_run (hd : Coherent u d) (hsize : d.stock.rows.size < 2 ^ 64)
    (hmode : r.mode = .ok (.page (.cursor after first))) {rows : List ρ}
    (hrows : u.engine.IsRoll d.stock r.category rows) {y : Resolution ρ} {s : Stock ρ}
    (hrun : (u.engine.resolve { r with fields := none }).run.run u.engine.answer d.stock = (.ok y, s)) :
    ∃ c, y.connection = some c ∧ u.engine.Announces rows (startOf d.stock after) y.items c := by
  obtain ⟨x, hfilter, hx⟩ := exists_run_categoryFilter u.engine d.stock r.category
  replace hrun := (Query.run_andThen (run_mode u.engine d.stock hmode)).symm.trans hrun
  cases x with
  | error e =>
    rw [Query.run_andThen_error hfilter] at hrun
    cases hrun
  | ok chosen =>
    rw [Query.run_andThen hfilter] at hrun
    cases chosen with
    | none =>
      have hnone : ∀ row, ¬ u.engine.InCategory d.stock r.category row := by
        intro row hrow
        obtain ⟨f, hf, -⟩ := (hx none rfl row).2 hrow
        cases hf
      obtain rfl := hrows.unique (isRoll_nil hnone)
      cases hrun
      exact ⟨{}, rfl, announces_empty _⟩
    | some f =>
      have hf : ∀ row, f.accepts u.engine.entity row = true ↔ u.engine.InCategory d.stock r.category row := by
        intro row
        rw [← hx (some f) rfl row]
        constructor
        · exact fun h => ⟨f, Option.mem_def.2 rfl, h⟩
        · rintro ⟨_, ⟨⟩, h⟩
          exact h
      have hroll := isRoll_inOrder hd.keyed hf
      obtain rfl := hrows.unique hroll
      by_cases hdeclared : ∀ c ∈ f, u.engine.entity.hasColumn c.column = true
      · have hpage := run_cursorPage hd hdeclared after first rfl
        cases hpage.symm.trans hrun
        exact announces_pageAnswer hd.keyed hsize hroll _ _ rfl
      · obtain ⟨err, hcount⟩ := run_count_error (s := d.stock) hdeclared
        cases (Query.run_andThen_error hcount).symm.trans hrun

/-! ## Pages at a desk -/

/-- At a desk whose tables are in memory, a request for a page after a cursor is answered, with a page unless
it names a category although there is no telling categories. Whatever page is answered, all that it says of
the rows that match is right: it starts after the row that the cursor names, or at the first if the cursor
cannot be read or its row is gone; if it has no next page, no row after its start is missing from it; and if it
starts at the first row, it has a next page exactly if rows are missing from it. -/
theorem next_page_sound (u : Setup ρ) {d : Desk ρ} (hd : Coherent u.inMemory d)
    (hsize : d.stock.rows.size < 2 ^ 64) {r : Request} {after : Option String} {first : Option UInt32}
    (hmode : r.mode = .ok (.page (.cursor after first))) :
    (∃ x d', u.inMemory.Carries (u.engine.resolve r).run d x d') ∧
    (u.engine.Declares → ¬ u.engine.Uncategorized r →
      ∀ x d', u.inMemory.Carries (u.engine.resolve r).run d x d' → ∃ y, x = .ok y) ∧
    ∃ rows, u.engine.IsRoll d.stock r.category rows ∧
      (∀ row, u.engine.entity.Keyed row → ∀ start, u.engine.entity.Past start row ↔
        ∀ k ∈ start, compare k (u.engine.entity.key row) = .lt) ∧
      ∀ y d', u.inMemory.Carries (u.engine.resolve r).run d (.ok y) d' →
        ∃ c, y.connection = some c ∧ u.engine.Announces rows (startOf d.stock after) y.items c := by
  obtain ⟨rows, hrows⟩ := exists_roll u.engine hd.keyed r.category
  have hresolve := Realizes.resolve (u := u.inMemory) rfl r
  refine ⟨hresolve.returns d hd, ?_, rows, hrows, fun row h => Entity.past_iff h, ?_⟩
  · intro hdeclares hcategory x d' hcarries
    have hfree : ¬ r.Conflicting := by
      rcases r.mode_cases with ⟨-, herror⟩ | ⟨hfree, -⟩
      · cases hmode.symm.trans herror
      · exact hfree
    have hpage : ¬ u.engine.Mispaged r := not_mispaged_of_ne hmode (by simp)
    have hserves := not_refuses (s := d.stock) hfree hcategory fun h => absurd h hpage
    rcases decided_of_carries (u := u.inMemory) rfl hdeclares hd hcarries with ⟨hrefuses, -⟩ | ⟨-, hanswer⟩
    · exact absurd hrefuses hserves
    · exact hanswer
  · intro y d' hcarries
    exact announces_of_run (u := u.inMemory) hd hsize hmode hrows (hresolve.agrees d _ d' hd hcarries).2

/-! ## News -/

/-- The request for two of the news after an article that is no news. -/
def newsAfterOther : Request where
  category := some "news"
  page := some (.cursor (some (Cursor.encode (.int 2))) (some 2))

/-- The page after an article that is no news counts all three articles of news. Unless it promises another
page, both articles that follow are on it. -/
theorem next_page_sound_newsroom :
    Coherent (newsroom {}).inMemory newsDesk ∧ newsDesk.stock.rows.size < 2 ^ 64 ∧
      newsAfterOther.mode = .ok (.page (.cursor (some (Cursor.encode (.int 2))) (some 2))) ∧
      ∃ y d' c, (newsroom {}).inMemory.Carries ((newsroom {}).engine.resolve newsAfterOther).run newsDesk
        (.ok y) d' ∧ y.connection = some c ∧ c.totalCount.toNat = 3 ∧
          (c.hasNextPage = false → Newsroom.article 3 ∈ y.items ∧ Newsroom.article 5 ∈ y.items) := by
  have hd : Coherent (newsroom {}).inMemory newsDesk := coherent_fresh _ _ _ _
  have hsize : newsDesk.stock.rows.size < 2 ^ 64 := by decide +kernel
  have hmode : newsAfterOther.mode = .ok (.page (.cursor (some (Cursor.encode (.int 2))) (some 2))) := rfl
  have hcategory : ¬ (newsroom {}).engine.Uncategorized newsAfterOther := by
    rintro ⟨-, -, hunset | hunset⟩ <;> cases hunset
  obtain ⟨⟨x, d', hcarries⟩, hanswered, rows, hrows, hpast, hall⟩ := next_page_sound (newsroom {}) hd hsize hmode
  obtain ⟨y, rfl⟩ := hanswered declares_newsroom hcategory x d' hcarries
  obtain ⟨c, hc, hannounces⟩ := hall y d' hcarries
  have hperm := perm_newsListed hrows
  have hthere : ∀ k ∈ some (Key.int 2), (newsDesk.stock.rows.get? k).isSome = true := by
    rintro _ ⟨⟩
    decide +kernel
  have hstart : Engine.startOf newsDesk.stock (some (Cursor.encode (.int 2))) = some (.int 2) :=
    Engine.startOf_encode hthere
  rw [hstart] at hannounces
  have hfollows : ∀ row ∈ [3, 5].map Newsroom.article, c.hasNextPage = false → row ∈ y.items := by
    intro row hrow hlast
    have hlisted : ∀ row ∈ [3, 5].map Newsroom.article, row ∈ newsListed ∧ Newsroom.articles.Keyed row ∧
        compare (Key.int 2) (Newsroom.articles.key row) = .lt := by
      unfold Entity.Keyed
      decide +kernel
    obtain ⟨hnews, hkeyed, hafter⟩ := hlisted row hrow
    refine hannounces.sound hlast row (hperm.symm.subset hnews) ((hpast row hkeyed _).2 ?_)
    rintro _ ⟨⟩
    exact hafter
  refine ⟨hd, hsize, hmode, y, d', c, hcarries, hc, ?_, fun hlast => ⟨?_, ?_⟩⟩
  · rw [hannounces.total, hperm.length_eq]
    rfl
  · exact hfollows _ (by simp) hlast
  · exact hfollows _ (by simp) hlast

end Desk

end ReadThrough
