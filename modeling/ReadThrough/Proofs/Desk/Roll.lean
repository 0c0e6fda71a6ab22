import ReadThrough.Proofs.Desk.Numbered
/-!
# The roll of a category

The rows that a request matches, by the key column, are its roll (`Engine.IsRoll`). Samples are stretches of
the roll, and pages after a cursor are parts of it. There is a roll for every category, known or not
(`Engine.exists_roll`), and it is the listing by key if rows hold their keys in the key column.
-/

namespace ReadThrough

namespace Engine

open Std

variable {ρ : Type} {g : Engine ρ} {s : Stock ρ} {category : Option String} {rows : List ρ}

theorem run_mode (g : Engine ρ) (s : Stock ρ) {r : Request} {mode : Mode} (hmode : r.mode = .ok mode) :
    (liftM r.mode : Query ρ Mode).run.run g.answer s = (.ok mode, s) := by
  rw [hmode]
  rfl

/-- The rows that match what a request asks for: those of the category, each once, by the key column. -/
structure IsRoll (g : Engine ρ) (s : Stock ρ) (category : Option String) (rows : List ρ) : Prop where
  mem_iff : ∀ row, row ∈ rows ↔
    s.rows.get? (g.entity.key row) = some row ∧ g.InCategory s category row
  sorted : rows.Pairwise fun a b => g.entity.compareBy [g.entity.natural] a b = .lt

/-- Rows that pass the filter of a category are on its roll. -/
theorem isRoll_inOrder (ht : s.rows.WellKeyed g.entity) {f : Filter}
    (hf : ∀ row, f.accepts g.entity row = true ↔ g.InCategory s category row) :
    g.IsRoll s category (s.rows.inOrder g.entity f) where
  mem_iff row := ht.mem_inOrder.trans (and_congr_right fun _ => hf row)
  sorted := ht.pairwise_inOrderOf { filter := f, order := [g.entity.natural] }

namespace IsRoll

variable (h : g.IsRoll s category rows)
include h

/-- There is only one roll. -/
theorem unique {rows' : List ρ} (h' : g.IsRoll s category rows') : rows = rows' :=
  eq_of_pairwise_lt h.sorted h'.sorted fun row => (h.mem_iff row).trans (h'.mem_iff row).symm

/-- Each key is on a roll once. -/
theorem nodup_keys : (rows.map g.entity.key).Nodup := by
  rw [List.Nodup, List.pairwise_map]
  refine h.sorted.imp_of_mem fun {a b} ha hb hab hkey => ?_
  have hsame := ((h.mem_iff a).1 ha).1
  rw [hkey, ((h.mem_iff b).1 hb).1] at hsame
  obtain rfl := Option.some.inj hsame
  exact OrientedCmp.not_lt_of_lt hab hab

theorem nodup : rows.Nodup := .of_map _ h.nodup_keys

/-- If rows hold their keys in the key column, their roll is in the order of the keys. -/
theorem isListing (hkeyed : ∀ k row, s.rows.get? k = some row → g.entity.Keyed row) :
    g.IsListing s category none rows where
  mem_iff := h.mem_iff
  sorted := by
    refine h.sorted.imp_of_mem fun {a b} ha hb hab => ?_
    have hka := hkeyed _ a ((h.mem_iff a).1 ha).1
    have hkb := hkeyed _ b ((h.mem_iff b).1 hb).1
    rwa [Entity.compareBy_natural hka hkb] at hab

end IsRoll

theorem isRoll_nil (hnone : ∀ row, ¬ g.InCategory s category row) : g.IsRoll s category [] where
  mem_iff row := ⟨nofun, fun h => absurd h.2 (hnone row)⟩
  sorted := .nil

/-- There is a roll for every category. It is empty if there is no category of the name, or no telling
categories. -/
theorem exists_roll (g : Engine ρ) (ht : s.rows.WellKeyed g.entity) (category : Option String) :
    ∃ rows, g.IsRoll s category rows := by
  cases category with
  | none => exact ⟨_, isRoll_inOrder (f := []) ht fun row => ⟨fun _ => nofun, fun _ => rfl⟩⟩
  | some name =>
    by_cases hset : ∃ column k, g.entity.categoryColumn = some column ∧ g.categoryKey? s name = some k
    · obtain ⟨column, k, hcolumn, hk⟩ := hset
      exact ⟨_, isRoll_inOrder ht (accepts_category hcolumn hk)⟩
    · refine ⟨[], isRoll_nil fun row hrow => hset ?_⟩
      obtain ⟨column, k, hcolumn, hk, -⟩ := hrow name rfl
      exact ⟨column, k, hcolumn, hk⟩

end Engine

namespace Desk

/-- The roll of the news has the articles of the listing. -/
theorem perm_newsListed {rows : List Newsroom.Item}
    (h : (newsroom {}).engine.IsRoll newsDesk.stock (some "news") rows) : rows.Perm newsListed := by
  have hlisted : newsListed.Nodup := by decide +kernel
  refine (List.perm_ext_iff_of_nodup h.nodup hlisted).2 fun row => ?_
  exact (h.mem_iff row).trans (isListing_newsListed.mem_iff row).symm

end Desk

end ReadThrough
