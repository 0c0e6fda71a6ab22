import ReadThrough.Invalidation.Bus
import ReadThrough.Sql.Call
/-!
# Notifications of a database as a bus

A database server passes notifications on to all who listen on a channel. A lost connection is reported
to the subscriber, who may have missed notifications; the connection is made again.
-/

namespace ReadThrough.Sql

/-- A channel of a database server. -/
structure Channel where
  name : String := "cache-invalidation"
  deriving DecidableEq, Repr, Inhabited

namespace Channel

/-- The statement that sends a notification. -/
def publishStatement (c : Channel) (payload : String) : Statement :=
  [.text "SELECT pg_notify(", .bind (.value (.text c.name)), .text ", ",
   .bind (.value (.text payload)), .text ")"]

/-- A text as a server knows it, which ends before a zero character. -/
def untilZero (s : String) : List Char := s.toList.takeWhile (· ≠ '\x00')

/-- A name between quotes; a quote in it is written twice. -/
def quoteName (name : String) : String :=
  let body := (untilZero name).flatMap fun c => if c = '"' then ['"', '"'] else [c]
  String.ofList ('"' :: body ++ ['"'])

/-- The statement that subscribes. -/
def listenStatement (c : Channel) : Statement := [.text ("LISTEN " ++ quoteName c.name)]

/-- What comes of a statement that is sent for the bus. -/
def busResult (r : Reply Unit) : Except BusError Unit :=
  match r with
  | .ok () => .ok ()
  | .error e => .error (.transport e.message)

end Channel

/-- What a listening connection delivers. -/
inductive Received where
  | notification (payload : String)
  /-- The connection is gone. -/
  | lost
  | failed (error : SqlError)
  deriving DecidableEq, Repr

/-- What the subscriber hears of it. -/
def Received.item : Received → Except BusError String
  | .notification payload => .ok (String.ofList (Channel.untilZero payload))
  | .lost => .error .disconnected
  | .failed error => .error (.transport error.message)

end ReadThrough.Sql
