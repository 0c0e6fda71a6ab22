import ReadThrough.Cache.Basic
import ReadThrough.Invalidation.Bus
import ReadThrough.Invalidation.Message
import ReadThrough.Store.Table
/-!
# Invalidation among peers

A process that has changed a row takes it out of its own cache at once and announces the change. What it
hears from others it applies to its cache in the same way, and does not announce it again; what it has
announced itself it passes over. When announcements may have been missed, nothing in the cache is
trusted any more.
-/

namespace ReadThrough

/-- What came of a payload. -/
inductive RemoteOutcome where
  | applied (m : Message)
  /-- The process has announced it itself. -/
  | skippedOwn
  | rejected
  deriving DecidableEq, Repr

/-- A row that is removed is announced as deleted, and a row that is written as cleared. -/
def Change.action : Change → Action
  | .remove => .delete
  | .insert | .update => .clear

/-- What a process announces of a change. -/
def announcement (self : Uuid) (action : Action) (segment : String) (key : Option Key) : Message where
  action := action
  segment := segment
  key := key
  origin := some self

namespace Cache

variable {ν : Type}

/-- What a process with the name `self` does with a payload. -/
def applyRemote (c : Cache ν) (self : Uuid) (payload : String) : RemoteOutcome × Cache ν :=
  match Message.decode? payload with
  | none => (.rejected, c)
  | some m =>
    if m.origin = some self then (.skippedOwn, c)
    else (.applied m, c.invalidate m.segment m.key)

/-- What a listening process does with what it hears on the bus. -/
def hear (c : Cache ν) (self : Uuid) : Except BusError String → Option RemoteOutcome × Cache ν
  | .ok payload =>
    let (outcome, c) := c.applyRemote self payload
    (some outcome, c)
  | .error e => (none, if e.mayHaveMissed then c.clearAll else c)

end Cache

end ReadThrough
