import ReadThrough.Dict
import ReadThrough.Key
/-!
# The cache

A cache keeps values for a while, by segment and key. A value that has been kept for the cache's
time to live is not delivered any more; it goes away when somebody asks for it or when the cache is
purged.

Every invalidation moves a counter: that of the segment, or that of the whole cache. An `Epoch` is a
view of the two counters, taken before a row is fetched. Storing under an epoch succeeds only while
both counters still stand where they stood, so that a row fetched before an invalidation is never
stored after it.
-/

namespace ReadThrough

/-- The invalidation counters that concern a segment. -/
structure Epoch where
  generation : UInt64
  segment : UInt64
  deriving DecidableEq, Repr, Inhabited

/-- A value and the moment from which on it is expired. -/
structure Entry (ν : Type) where
  value : ν
  expires : Nat
  deriving DecidableEq, Repr

/-- Whether an entry is expired. -/
def Entry.expired {ν : Type} (e : Entry ν) (now : Nat) : Bool := e.expires ≤ now

/-- A segment of the cache. -/
structure Slot (ν : Type) where
  epoch : UInt64 := 0
  entries : Dict Key (Entry ν) := .empty

/-- Values kept for a time to live, in milliseconds. -/
structure Cache (ν : Type) where
  ttl : UInt64
  generation : UInt64 := 0
  slots : Dict String (Slot ν) := .empty

namespace Cache

variable {ν α : Type}

/-- A segment; one that nothing has happened to is empty. -/
def slot (c : Cache ν) (segment : String) : Slot ν := (c.slots.find? segment).getD {}

/-- The cache with a segment replaced. -/
def setSlot (c : Cache ν) (segment : String) (s : Slot ν) : Cache ν :=
  { c with slots := c.slots.insert segment s }

/-- The entry under a key, expired or not. -/
def find? (c : Cache ν) (segment : String) (k : Key) : Option (Entry ν) :=
  (c.slot segment).entries.find? k

/-- The number of entries in a segment, expired ones included. -/
def segmentSize (c : Cache ν) (segment : String) : Nat := (c.slot segment).entries.size

/-- The number of entries, expired ones included. -/
def size (c : Cache ν) : Nat :=
  c.slots.values.foldr (fun s n => s.entries.size + n) 0

/-- The counters that concern a segment. -/
def epoch (c : Cache ν) (segment : String) : Epoch :=
  { generation := c.generation, segment := (c.slot segment).epoch }

/-- Whether there has been no invalidation since an epoch was taken. -/
def isCurrent (c : Cache ν) (segment : String) (epoch : Epoch) : Bool := c.epoch segment = epoch

/-! ## Reading -/

/-- The value under a key, if it is of the kind that `read` understands. An expired entry goes away,
whatever its kind; a value of another kind stays. -/
def get (c : Cache ν) (now : Nat) (segment : String) (k : Key) (read : ν → Option α) :
    Option α × Cache ν :=
  match c.find? segment k with
  | none => (none, c)
  | some e =>
    if e.expired now then
      let s := c.slot segment
      (none, c.setSlot segment { s with entries := s.entries.erase k })
    else (read e.value, c)

/-! ## Storing -/

/-- Stores a value. -/
def set (c : Cache ν) (now : Nat) (segment : String) (k : Key) (v : ν) : Cache ν :=
  let s := c.slot segment
  c.setSlot segment
    { s with entries := s.entries.insert k { value := v, expires := now + c.ttl.toNat } }

/-- Stores a value unless there has been an invalidation since the epoch, and says whether it did. -/
def setIfCurrent (c : Cache ν) (now : Nat) (segment : String) (k : Key) (v : ν) (epoch : Epoch) :
    Bool × Cache ν :=
  if c.isCurrent segment epoch then (true, c.set now segment k v) else (false, c)

/-! ## Invalidation -/

/-- Takes the entry under a key away and says whether there was one. -/
def delete (c : Cache ν) (segment : String) (k : Key) : Bool × Cache ν :=
  let s := c.slot segment
  (s.entries.contains k,
    c.setSlot segment { epoch := s.epoch + 1, entries := s.entries.erase k })

/-- Takes all entries of a segment away. -/
def clearSegment (c : Cache ν) (segment : String) : Cache ν :=
  c.setSlot segment { epoch := (c.slot segment).epoch + 1 }

/-- Takes all entries away. -/
def clearAll (c : Cache ν) : Cache ν :=
  { c with
    generation := c.generation + 1
    slots := c.slots.map fun _ s => { s with entries := .empty } }

/-- Takes one entry away, or all of a segment. -/
def invalidate (c : Cache ν) (segment : String) : Option Key → Cache ν
  | some k => (c.delete segment k).2
  | none => c.clearSegment segment

/-! ## Purging -/

/-- Takes all expired entries away. -/
def purge (c : Cache ν) (now : Nat) : Cache ν :=
  { c with slots := c.slots.map fun _ s => { s with
      entries := s.entries.filter fun _ e => !e.expired now } }

/-- The number of entries that purging takes away: for each segment, by how many it gets smaller. -/
def purgeCount (c : Cache ν) (now : Nat) : Nat :=
  c.slots.values.foldr
    (fun s n => s.entries.size - (s.entries.filter fun _ e => !e.expired now).size + n) 0

end Cache

end ReadThrough
