import Mathlib.Data.List.Basic
import ReadThrough.Newsroom.Tables
import ReadThrough.Proofs.Sql.Mirror
import ReadThrough.Proofs.Sql.Reading
/-!
# A database and a table in memory as stores of the same rows

A store over a database and a table in memory refuse the same options and count the same rows. They find the
same keys if rows that differ first in a column of the order both have a value in it; and only then, if all
keys are asked for (`stores_agree`): a column without a value comes last in a database, and first in memory.
-/

namespace ReadThrough

variable {ρ ω : Type}

namespace Sql

/-! ## What comes of a call -/

section Yields

variable {α β : Type} {db : Database ρ} {column : β → List (Option Value)} {r : Except StoreError α}

/-- What may come of a call when a database answers it. A reply is the one column of an answer. -/
inductive Call.Yields (db : Database ρ) (column : β → List (Option Value)) :
    Call β α → Except StoreError α → Prop
  | done (r : Except StoreError α) : Yields db column (.done r) r
  | ask {s : Statement} {read : β → Except StoreError α} {q : Query} {reply : β}
    (hread : Query.read s = some q) (hanswer : q.Answers db (column reply)) :
    Yields db column (.ask s read) (read reply)

theorem Call.yields_done_iff {r' : Except StoreError α} : (Call.done r').Yields db column r ↔ r = r' := by
  constructor
  · intro h
    cases h
    rfl
  · rintro rfl
    exact .done r

theorem Call.yields_ask_iff {s : Statement} {read : β → Except StoreError α} {q : Query}
    (hread : Query.read s = some q) :
    (Call.ask s read).Yields db column r ↔ ∃ reply, q.Answers db (column reply) ∧ r = read reply := by
  constructor
  · intro h
    cases h with
    | ask hread' hanswer =>
      obtain rfl := Option.some_inj.1 (hread.symm.trans hread')
      exact ⟨_, hanswer, rfl⟩
  · rintro ⟨reply, hanswer, rfl⟩
    exact .ask hread hanswer

end Yields

/-- The column of counts. -/
def countColumn (counts : List Int64) : List (Option Value) := counts.map fun n => some (.int n)

/-- The column of keys. -/
def keyColumn (values : List Value) : List (Option Value) := values.map some

variable {db : Database ρ} {m : Mapping ρ} {t : Table ρ ω} {kind : String → Nat} {o : FindOptions}

/-! ## Counting -/

/-- A number of rows that is counted by a database is read as it is. -/
theorem count_read {n : Int64} {length : Nat} (h : n.toInt = length) :
    (if n < 0 then 0 else n.toUInt64) = UInt64.ofNat length := by
  have hn : ¬ n < 0 := by
    rw [Int64.lt_iff_toInt_lt, h]
    simp
  have hlength : n = Int64.ofNat length := by
    rw [← Int64.ofInt_toInt n, h]
    rfl
  rw [if_neg hn, hlength, Int64.toUInt64_ofNat']

/-- The rows that a database counts are as many as pass the filter in memory. -/
theorem Mirrors.yields_count_iff (h : Mirrors db m t kind) (hm : m.Plain) {f : Filter}
    (hkind : ∀ c ∈ f, c.value.rank = kind c.column) (r : Except StoreError UInt64) :
    (Call.count m f).Yields db countColumn r ↔ r = t.count m.entity f := by
  by_cases hf : ∀ c ∈ f, m.entity.hasColumn c.column = true
  · have hcheck := (FindOptions.declared_filter hf).check
    have hlength := (h.chosen_perm hf hkind).length_eq
    have hbound : (t.matching m.entity f).length < 2 ^ 63 :=
      Nat.lt_of_le_of_lt (t.length_matching_le m.entity f) h.size
    rw [Call.count, countStatement, Table.count, hcheck]
    show (Call.ask _ _).Yields db countColumn r ↔ r = .ok (.ofNat _)
    rw [Call.yields_ask_iff (read_countStatement hm hf)]
    constructor
    · rintro ⟨reply, hanswer, rfl⟩
      generalize hcolumn : countColumn reply = column at hanswer
      cases hanswer with
      | @count _ _ n hn =>
        obtain ⟨k, rest, rfl, hk, hrest⟩ := List.map_eq_cons_iff.1 hcolumn
        obtain rfl := List.map_eq_nil_iff.1 hrest
        cases hk
        rw [hlength] at hn
        exact congrArg Except.ok (count_read hn)
    · rintro rfl
      have hn : (Int64.ofNat (t.matching m.entity f).length).toInt = (t.matching m.entity f).length :=
        Int64.toInt_ofNat_of_lt hbound
      exact ⟨[.ofNat (t.matching m.entity f).length], .count (hlength ▸ hn),
        congrArg Except.ok (count_read hn).symm⟩
  · have hundeclared : ¬ FindOptions.Declared { filter := f } m.entity := fun hdeclared => hf hdeclared.filter
    obtain ⟨fault, hcheck⟩ := FindOptions.exists_check_eq hundeclared
    rw [Call.count, countStatement, Table.count, hcheck]
    exact Call.yields_done_iff

/-! ## Finding keys -/

theorem key?_toValue {kind : KeyKind} {k : Key} (h : kind.admits k = true) : kind.key? k.toValue = some k := by
  cases kind <;> cases k <;> first | rfl | cases h

theorem clampCount_bounds (n : UInt64) :
    0 ≤ clampCount n ∧ (clampCount n).toNatClampNeg = min n.toNat (2 ^ 63 - 1) := by
  have hlt : min n.toNat (2 ^ 63 - 1) < 2 ^ 63 := by omega
  rw [clampCount_eq, Int64.le_iff_toInt_le, Int64.toInt_ofNat_of_lt hlt,
    Int64.toNatClampNeg_ofNat_of_lt hlt]
  exact ⟨Int.natCast_nonneg _, rfl⟩

/-- What a query for keys says is what the options ask for. -/
theorem read_keys (hm : m.Plain) (ho : o.Declared m.entity) :
    Query.read ((Select.ofOptions m .keys o).statement m) = some (.list (listing m o)) := by
  have hnonempty : (Select.ofOptions m .keys o).order ≠ [] :=
    List.ne_nil_of_mem (exists_keyColumn_mem m.entity o.order).choose_spec.1
  have hdeclared : (Select.ofOptions m .keys o).Declared m := Select.declared_ofOptions ho nofun
  rw [read_statement hm hdeclared rfl hnonempty]
  · have hlimit : (o.take.map clampCount).map Int64.toNatClampNeg =
        o.take.map fun n => min n.toNat (2 ^ 63 - 1) := by
      rw [Option.map_map]
      exact congrArg (o.take.map ·) (funext fun n => (clampCount_bounds n).2)
    have hoffset : ((if 0 < o.skip then some (clampCount o.skip) else none).map Int64.toNatClampNeg).getD 0 =
        min o.skip.toNat (2 ^ 63 - 1) := by
      split
      · exact (clampCount_bounds o.skip).2
      · rename_i hskip
        have hzero : o.skip.toNat = 0 := by
          rw [UInt64.lt_iff_toNat_lt, UInt64.toNat_zero] at hskip
          omega
        simp [hzero]
    rw [Select.ofOptions, listing, hlimit, hoffset]
  · rintro k hk
    obtain ⟨n, -, rfl⟩ := Option.map_eq_some_iff.1 hk
    exact (clampCount_bounds n).1
  · intro k hk
    simp only [Select.ofOptions] at hk
    split at hk <;> cases hk
    exact (clampCount_bounds o.skip).1

/-- A key as the mapping reads it in a column. -/
def readKey (m : Mapping ρ) (v : Value) : Except StoreError Key :=
  match m.keyKind.key? v with
  | some k => .ok k
  | none => .error (SqlError.protocol "key of another kind").toStoreError

theorem findKeys_eq_ask (ho : o.Declared m.entity) :
    Call.findKeys m o = .ask ((Select.ofOptions m .keys o).statement m) (·.mapM (readKey m)) := by
  rw [Call.findKeys, Select.keys, ho.check]
  rfl

section

variable (h : Mirrors db m t kind)
include h

/-- The column of some rows holds their keys. -/
theorem Mirrors.column_rows {rows : List ρ} (hrows : ∀ row ∈ rows, row ∈ t.rows.values) :
    rows.map (db.value · m.entity.keyColumn) = keyColumn (rows.map fun row => (m.entity.key row).toValue) := by
  rw [keyColumn, List.map_map]
  refine List.map_congr_left fun row hrow => ?_
  rw [h.value row (hrows row hrow) _ m.entity.hasColumn_keyColumn, h.keyed row (hrows row hrow)]
  rfl

/-- The keys of some rows are read as they are. -/
theorem Mirrors.read_rows {rows : List ρ} (hrows : ∀ row ∈ rows, row ∈ t.rows.values) :
    (rows.map fun row => (m.entity.key row).toValue).mapM (readKey m) = .ok (rows.map m.entity.key) := by
  induction rows with
  | nil => rfl
  | cons row rows ih =>
    have hread : readKey m (m.entity.key row).toValue = .ok (m.entity.key row) := by
      rw [readKey, key?_toValue (h.admits row (hrows row List.mem_cons_self))]
    rw [List.map_cons, List.mapM_cons, hread, ih fun r hr => hrows r (List.mem_cons_of_mem _ hr)]
    rfl

/-- Rows of the table are what is found under their keys. -/
theorem Mirrors.findByIds_keys {rows : List ρ} (hrows : ∀ row ∈ rows, row ∈ t.rows.values) :
    t.findByIds (rows.map m.entity.key) = rows := by
  rw [Table.findByIds, List.filterMap_map]
  refine Eq.trans (List.filterMap_congr fun row hrow => ?_) List.filterMap_some
  exact h.wellKeyed.mem_values.1 (hrows row hrow)

/-- Rows that may be delivered are rows of the table. -/
theorem Mirrors.mem_of_delivers {rows : List ρ} (hrows : (listing m o).Delivers db rows) :
    ∀ row ∈ rows, row ∈ t.rows.values := by
  obtain ⟨sorted, hperm, -, rfl⟩ := hrows
  intro row hrow
  have hsorted : row ∈ sorted := (listing m o).mem_of_mem_window hrow
  exact h.rows.mem_iff.1 (List.mem_filter.1 (hperm.mem_iff.1 hsorted)).1

/-- What comes of a query for keys are the keys of rows that may be delivered. -/
theorem Mirrors.yields_keys_iff (hm : m.Plain) (ho : o.Declared m.entity) (r : Except StoreError (List Key)) :
    (Call.findKeys m o).Yields db keyColumn r ↔
      ∃ rows, (listing m o).Delivers db rows ∧ r = .ok (rows.map m.entity.key) := by
  rw [findKeys_eq_ask ho, Call.yields_ask_iff (read_keys hm ho)]
  constructor
  · rintro ⟨reply, hanswer, rfl⟩
    generalize hcolumn : keyColumn reply = column at hanswer
    cases hanswer with
    | @list _ rows hrows =>
      have hmem := h.mem_of_delivers hrows
      have hreply : reply.map some = (rows.map fun row => (m.entity.key row).toValue).map some :=
        hcolumn.trans (h.column_rows hmem)
      rw [List.map_inj_right fun _ _ => Option.some_inj.1] at hreply
      exact ⟨rows, hrows, hreply ▸ h.read_rows hmem⟩
  · rintro ⟨rows, hrows, rfl⟩
    have hmem := h.mem_of_delivers hrows
    exact ⟨_, h.column_rows hmem ▸ .list hrows, (h.read_rows hmem).symm⟩

/-- If no row without a value meets one with a value, a database finds the keys that are found in memory. -/
theorem Mirrors.yields_findKeys_iff (hm : m.Plain) (hkind : ∀ c ∈ o.filter, c.value.rank = kind c.column)
    (hlevel : t.Level m.entity o) (r : Except StoreError (List Key)) :
    (Call.findKeys m o).Yields db keyColumn r ↔ r = t.findKeys m.entity o := by
  by_cases ho : o.Declared m.entity
  · rw [h.yields_keys_iff hm ho, findKeys_eq h.size ho]
    constructor
    · rintro ⟨_, ⟨sorted, hperm, hpair, rfl⟩, rfl⟩
      rw [(h.sorted_iff ho hkind hlevel).1 ⟨hperm, hpair⟩]
    · rintro rfl
      obtain ⟨hperm, hpair⟩ := (h.sorted_iff ho hkind hlevel).2 rfl
      exact ⟨_, ⟨_, hperm, hpair, rfl⟩, rfl⟩
  · obtain ⟨fault, hcheck⟩ := FindOptions.exists_check_eq ho
    rw [Call.findKeys, Select.keys, Table.findKeys, Table.findMany, hcheck]
    exact Call.yields_done_iff

/-- If a database may find all the keys that are found in memory, in their order, then no row without a value
meets one with a value. -/
theorem Mirrors.level_of_yields (hm : m.Plain) (ho : o.Declared m.entity) (hskip : o.skip = 0)
    (htake : o.take = none) (hyields : (Call.findKeys m o).Yields db keyColumn (t.findKeys m.entity o)) :
    t.Level m.entity o := by
  have hall : ∀ rows : List ρ, (listing m o).window rows = rows := by
    intro rows
    simp [listing, Listing.window, hskip, htake]
  rw [h.yields_keys_iff hm ho, findKeys_eq h.size ho, hall] at hyields
  obtain ⟨rows, ⟨sorted, hperm, hpair, rfl⟩, heq⟩ := hyields
  rw [hall] at heq
  have hsorted : sorted = t.inOrderOf m.entity o := by
    have hchosen : ∀ row ∈ sorted, row ∈ t.rows.values :=
      h.mem_of_delivers ⟨sorted, hperm, hpair, (hall _).symm⟩
    have hmatching : ∀ row ∈ t.inOrderOf m.entity o, row ∈ t.rows.values :=
      fun row hrow => (List.mem_filter.1 (List.mem_mergeSort.1 hrow)).1
    rw [← h.findByIds_keys hchosen, ← Except.ok.inj heq, h.findByIds_keys hmatching]
  exact h.level_of_pairwise ho (hsorted ▸ hpair)

end

/-- A database and a table in memory that hold the same rows count the same rows by every filter. They find
the same keys by all options, unless of two rows that pass the filter one has no value in the first column of
the order in which they differ; and if all keys are asked for, only then. Options that name what is not
declared are refused by both in the same words. -/
theorem stores_agree (h : Mirrors db m t kind) (hm : m.Plain) (o : FindOptions)
    (hkind : ∀ c ∈ o.filter, c.value.rank = kind c.column) :
    (∀ r, (Call.count m o.filter).Yields db countColumn r ↔ r = t.count m.entity o.filter) ∧
    (t.Level m.entity o →
      ∀ r, (Call.findKeys m o).Yields db keyColumn r ↔ r = t.findKeys m.entity o) ∧
    (o.Declared m.entity → o.skip = 0 → o.take = none →
      (Call.findKeys m o).Yields db keyColumn (t.findKeys m.entity o) → t.Level m.entity o) :=
  ⟨h.yields_count_iff hm hkind, fun hlevel => h.yields_findKeys_iff hm hkind hlevel,
    fun ho hskip htake hyields => h.level_of_yields hm ho hskip htake hyields⟩

/-! ## Tags -/

/-- Two tags, of which the first has no label. -/
def someTags : List Newsroom.Item :=
  [.tag { code := "a", weight := 2 }, .tag { code := "b", label := some "x", weight := 1 }]

/-- A database in which the tags are stored, the last first. -/
def tagDatabase : Database Newsroom.Item where
  rows := fun table => if table = "tags" then someTags.reverse else []
  value := Newsroom.Item.value

/-- The tags in memory. -/
def tagsInMemory : Table Newsroom.Item Unit := .ofRows Newsroom.tags someTags

/-- The kinds of the columns of tags. -/
def tagKind (column : String) : Nat := if column = "weight" then 0 else 1

theorem mem_tagColumns {c : String} (h : Newsroom.tags.hasColumn c = true) :
    c ∈ ["code", "label", "weight", "ghost"] := by
  exact List.mem_cons.2 ((Bool.or_eq_true_iff.1 h).imp of_decide_eq_true List.contains_iff_mem.1)

theorem mirrors_tags : Mirrors tagDatabase Newsroom.tagTable tagsInMemory tagKind where
  rows := by decide
  value _ _ _ _ := rfl
  kinds := by
    have hcolumns : ∀ row ∈ tagsInMemory.rows.values, ∀ c ∈ ["code", "label", "weight", "ghost"],
        ∀ v ∈ Newsroom.tags.value row c, v.rank = tagKind c := by decide
    exact fun row hrow c hc => hcolumns row hrow c (mem_tagColumns hc)
  wellKeyed := Table.wellKeyed_ofRows _ _
  keyed := by
    show ∀ row ∈ tagsInMemory.rows.values,
      Newsroom.tags.value row "code" = some (Newsroom.tags.key row).toValue
    decide
  admits := by decide
  size := by decide

theorem plain_tagTable : Newsroom.tagTable.Plain where
  table := by decide
  columns := by
    have hcolumns : ∀ c ∈ ["code", "label", "weight", "ghost"], plainName c = true := by decide
    exact fun c hc => hcolumns c (mem_tagColumns hc)

/-- The tags are found in memory in the order of their codes, if they are in the order of the options. -/
theorem findKeys_tags {o : FindOptions} (ho : o.Declared Newsroom.tags)
    (hmatching : tagsInMemory.matching Newsroom.tags o.filter = someTags)
    (hsorted : someTags.Pairwise fun a b => (Newsroom.tags.compareBy o.order a b).isLE = true) :
    tagsInMemory.findKeys Newsroom.tags o =
      .ok (((listing Newsroom.tagTable o).window someTags).map Newsroom.tags.key) := by
  have horder : tagsInMemory.inOrderOf Newsroom.tags o = someTags := by
    rw [Table.inOrderOf, hmatching, List.mergeSort_of_pairwise hsorted]
  exact horder ▸ findKeys_eq (m := Newsroom.tagTable) mirrors_tags.size ho

/-- The second of the tags that weigh something, the heaviest first. -/
def heaviestTags : FindOptions where
  filter := [{ column := "weight", comparison := .gt, value := .int 0 }]
  order := [{ column := "weight", direction := .desc }]
  skip := 1
  take := some 1

theorem stores_agree_heaviestTags :
    Mirrors tagDatabase Newsroom.tagTable tagsInMemory tagKind ∧ Newsroom.tagTable.Plain ∧
    (∀ c ∈ heaviestTags.filter, c.value.rank = tagKind c.column) ∧
    tagsInMemory.Level Newsroom.tags heaviestTags ∧
    ∀ r, (Call.findKeys Newsroom.tagTable heaviestTags).Yields tagDatabase keyColumn r ↔
      r = .ok [.text "b"] := by
  have hlevel : tagsInMemory.Level Newsroom.tags heaviestTags := by
    unfold Table.Level
    decide
  have hfound : tagsInMemory.findKeys Newsroom.tags heaviestTags = .ok [.text "b"] :=
    findKeys_tags ⟨by decide, by decide, by decide⟩ (by decide) (by decide)
  have hagree := stores_agree mirrors_tags plain_tagTable heaviestTags (by decide)
  exact ⟨mirrors_tags, plain_tagTable, by decide, hlevel, fun r => hfound ▸ hagree.2.1 hlevel r⟩

/-- Tags by their labels, of which some have none. -/
def byLabel : FindOptions where
  order := [{ column := "label" }]

/-- A tag without a label comes first by label in memory, and last in a database. -/
theorem keys_differ_byLabel :
    Mirrors tagDatabase Newsroom.tagTable tagsInMemory tagKind ∧ Newsroom.tagTable.Plain ∧
    byLabel.Declared Newsroom.tags ∧
    tagsInMemory.findKeys Newsroom.tags byLabel = .ok [.text "a", .text "b"] ∧
    (Call.findKeys Newsroom.tagTable byLabel).Yields tagDatabase keyColumn (.ok [.text "b", .text "a"]) ∧
    ¬ (Call.findKeys Newsroom.tagTable byLabel).Yields tagDatabase keyColumn (.ok [.text "a", .text "b"]) := by
  have ho : byLabel.Declared Newsroom.tags := ⟨by decide, by decide, by decide⟩
  have hfound : tagsInMemory.findKeys Newsroom.tags byLabel = .ok [.text "a", .text "b"] :=
    findKeys_tags ho (by decide) (by decide)
  refine ⟨mirrors_tags, plain_tagTable, ho, hfound, ?_, fun hyields => ?_⟩
  · refine (mirrors_tags.yields_keys_iff plain_tagTable ho _).2 ⟨someTags.reverse, ?_, rfl⟩
    exact ⟨someTags.reverse, by decide, by decide, by decide⟩
  · have hlevel := mirrors_tags.level_of_yields plain_tagTable ho rfl rfl (hfound ▸ hyields)
    revert hlevel
    unfold Table.Level
    decide

end Sql

end ReadThrough
