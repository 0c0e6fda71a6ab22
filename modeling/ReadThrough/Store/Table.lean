import ReadThrough.Dict
import ReadThrough.Store.Filter
/-!
# Tables in memory

A table holds one row for each key. Whoever changes a row gets back the notices for the table's
observers, one for each of them in the order in which they were attached; a change that is refused
changes nothing and nobody hears of it.
-/

namespace ReadThrough

/-- What happened to a row. -/
inductive Change where
  | insert
  | update
  | remove
  deriving DecidableEq, Repr, Inhabited

/-- News of a change for one observer. -/
structure Notice (ω : Type) where
  observer : ω
  change : Change
  segment : String
  key : Key
  deriving DecidableEq, Repr

/-- Rows by key, and who is told when they change. -/
structure Table (ρ ω : Type) where
  rows : Dict Key ρ := .empty
  observers : List ω := []

namespace Table

variable {ρ ω : Type}

/-- A table of rows; of two rows with one key the later stays. -/
def ofRows (e : Entity ρ) (rows : List ρ) : Table ρ ω :=
  { rows := .ofList (rows.map fun r => (e.key r, r)) }

/-- The table with one more observer. -/
def attach (t : Table ρ ω) (observer : ω) : Table ρ ω :=
  { t with observers := t.observers ++ [observer] }

/-- The number of rows. -/
def size (t : Table ρ ω) : Nat := t.rows.size

/-- The row under a key. -/
def get? (t : Table ρ ω) (k : Key) : Option ρ := t.rows.find? k

/-- The notices of a change. -/
def notices (t : Table ρ ω) (change : Change) (segment : String) (key : Key) : List (Notice ω) :=
  t.observers.map fun observer => { observer, change, segment, key }

/-! ## Changes -/

/-- Adds a row under a key that has none. -/
def insert (e : Entity ρ) (t : Table ρ ω) (row : ρ) :
    Except StoreError (Table ρ ω × List (Notice ω)) :=
  let k := e.key row
  if t.rows.contains k then .error (.invalidInput (.duplicateKey e.segment k))
  else .ok ({ t with rows := t.rows.insert k row }, t.notices .insert e.segment k)

/-- Puts a row in place of the one under its key. -/
def update (e : Entity ρ) (t : Table ρ ω) (row : ρ) :
    Except StoreError (Table ρ ω × List (Notice ω)) :=
  let k := e.key row
  if t.rows.contains k then
    .ok ({ t with rows := t.rows.insert k row }, t.notices .update e.segment k)
  else .error .notFound

/-- Takes the row under a key away, if there is one. -/
def remove (e : Entity ρ) (t : Table ρ ω) (k : Key) :
    Option ρ × Table ρ ω × List (Notice ω) :=
  match t.get? k with
  | some row => (some row, { t with rows := t.rows.erase k }, t.notices .remove e.segment k)
  | none => (none, t, [])

/-! ## The rows after each change -/

@[simp] theorem get?_attach (t : Table ρ ω) (observer : ω) (k : Key) :
    (t.attach observer).get? k = t.get? k := rfl

theorem get?_of_insert {e : Entity ρ} {t t' : Table ρ ω} {row : ρ} {news : List (Notice ω)}
    (h : t.insert e row = .ok (t', news)) (k : Key) :
    t'.get? k = if k = e.key row then some row else t.get? k := by
  simp only [insert] at h
  split at h
  · cases h
  · cases h
    simp [get?]

theorem get?_of_update {e : Entity ρ} {t t' : Table ρ ω} {row : ρ} {news : List (Notice ω)}
    (h : t.update e row = .ok (t', news)) (k : Key) :
    t'.get? k = if k = e.key row then some row else t.get? k := by
  simp only [update] at h
  split at h
  · cases h
    simp [get?]
  · cases h

theorem get?_remove (e : Entity ρ) (t : Table ρ ω) (k k' : Key) :
    (t.remove e k).2.1.get? k' = if k' = k then none else t.get? k' := by
  unfold remove
  split
  · simp [get?]
  · rename_i h
    split
    · rename_i hk
      rw [hk, h]
    · rfl

/-! ## Queries -/

/-- The rows under the given keys, in their order; a key without a row is passed over. -/
def findByIds (t : Table ρ ω) (keys : List Key) : List ρ := keys.filterMap t.get?

/-- The rows that pass a filter. -/
def matching (e : Entity ρ) (t : Table ρ ω) (f : Filter) : List ρ :=
  t.rows.values.filter (f.accepts e)

/-- How many rows pass a filter. -/
def count (e : Entity ρ) (t : Table ρ ω) (f : Filter) : Except StoreError UInt64 := do
  FindOptions.check { filter := f } e
  return .ofNat (t.matching e f).length

/-- The rows that pass the filter in the given order, from a place on and so many of them. -/
def findMany (e : Entity ρ) (t : Table ρ ω) (o : FindOptions) : Except StoreError (List ρ) := do
  o.check e
  let sorted := (t.matching e o.filter).mergeSort fun a b => (e.compareBy o.order a b).isLE
  let rest := sorted.drop o.skip.toNat
  return match o.take with
    | some n => rest.take n.toNat
    | none => rest

/-- The keys of those rows. -/
def findKeys (e : Entity ρ) (t : Table ρ ω) (o : FindOptions) : Except StoreError (List Key) :=
  (t.findMany e o).map (·.map e.key)

end Table

end ReadThrough
