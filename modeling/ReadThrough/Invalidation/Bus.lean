/-!
# The bus

Payloads travel on a bus that every subscriber reads from the moment of its subscription on. The bus
in memory keeps the last payloads only. A subscriber that falls behind them is told how many it has
missed, and goes on with the oldest payload that is kept.
-/

namespace ReadThrough

/-- What a bus reports instead of a payload. -/
inductive BusError where
  | transport (detail : String)
  | encode (detail : String)
  | decode (detail : String)
  | lagged (missed : UInt64)
  | disconnected
  deriving DecidableEq, Repr, Inhabited

namespace BusError

/-- The text of an error. -/
def message : BusError → String
  | .transport detail => s!"bus transport error: {detail}"
  | .encode detail => s!"failed to encode invalidation message: {detail}"
  | .decode detail => s!"failed to decode invalidation message: {detail}"
  | .lagged missed => s!"subscriber lagged behind, {missed} messages skipped"
  | .disconnected => "bus connection lost"

/-- Whether payloads may have been missed. -/
def mayHaveMissed : BusError → Bool
  | .lagged _ | .disconnected => true
  | .transport _ | .encode _ | .decode _ => false

end BusError

/-- A bus that keeps as many payloads as its capacity. Positions count all payloads ever published. -/
structure Bus where
  capacity : Nat
  published : Nat := 0
  /-- The last payloads, oldest first. -/
  kept : List String := []
  deriving DecidableEq, Repr

namespace Bus

/-- A bus that keeps at least so many payloads, and a power of two of them. -/
def ofCapacity (n : Nat) : Bus := { capacity := n.nextPowerOfTwo }

/-- The bus of the usual size. -/
def standard : Bus := ofCapacity 1024

/-- The position of the oldest payload that is kept. -/
def oldest (b : Bus) : Nat := b.published - b.kept.length

/-- Publishes a payload; the oldest one makes room for it. -/
def publish (b : Bus) (payload : String) : Bus :=
  let kept := b.kept ++ [payload]
  { b with published := b.published + 1, kept := kept.drop (kept.length - b.capacity) }

/-- What a subscriber at a position hears next, and its position after that. Nothing when it has heard
all. -/
def receive (b : Bus) (position : Nat) : Option (Except BusError String × Nat) :=
  if position < b.oldest then
    some (.error (.lagged (.ofNat (b.oldest - position))), b.oldest)
  else (b.kept[position - b.oldest]?).map fun payload => (.ok payload, position + 1)

/-- All that a subscriber at a position still hears; its position is at the end after that. -/
def rest (b : Bus) (position : Nat) : List (Except BusError String) :=
  if position < b.oldest then
    .error (.lagged (.ofNat (b.oldest - position))) :: b.kept.map .ok
  else (b.kept.drop (position - b.oldest)).map .ok

end Bus

end ReadThrough
