import ReadThrough.Cache.Basic
import ReadThrough.Entity
/-!
# Rows in the cache

Entities of different kinds may share a segment of a cache. What is held under a key is a row, or the
knowledge that there is none, and always of one kind; an entity of another kind does not see it.
-/

namespace ReadThrough

/-- What a cache holds for an entity of a kind: a row or its absence. -/
structure Held (ρ : Type) where
  kind : String
  row : Option ρ
  deriving DecidableEq, Repr

namespace Held

variable {ρ : Type}

/-- The row or its absence, as an entity of a kind sees it. -/
def read (kind : String) (h : Held ρ) : Option (Option ρ) :=
  if h.kind = kind then some h.row else none

end Held

/-- A cache of rows. -/
abbrev RowCache (ρ : Type) := Cache (Held ρ)

namespace RowCache

variable {ρ : Type}

/-- What the cache knows of a row of an entity. -/
def look (c : RowCache ρ) (now : Nat) (e : Entity ρ) (k : Key) :
    Option (Option ρ) × RowCache ρ :=
  c.get now e.segment k (Held.read e.kind)

/-- Keeps a row of an entity, or its absence. -/
def keep (c : RowCache ρ) (now : Nat) (e : Entity ρ) (k : Key) (row : Option ρ) : RowCache ρ :=
  c.set now e.segment k { kind := e.kind, row }

/-- Keeps a row of an entity, or its absence, unless there has been an invalidation since the epoch; and
says whether it did. -/
def keepIfCurrent (c : RowCache ρ) (now : Nat) (e : Entity ρ) (k : Key) (row : Option ρ)
    (epoch : Epoch) : Bool × RowCache ρ :=
  c.setIfCurrent now e.segment k { kind := e.kind, row } epoch

/-- Keeps rows of an entity under their keys, unless there has been an invalidation since the epoch. -/
def keepAllIfCurrent (c : RowCache ρ) (now : Nat) (e : Entity ρ) (rows : List ρ) (epoch : Epoch) :
    RowCache ρ :=
  rows.foldl (fun c row => (c.keepIfCurrent now e (e.key row) (some row) epoch).2) c

end RowCache

end ReadThrough
