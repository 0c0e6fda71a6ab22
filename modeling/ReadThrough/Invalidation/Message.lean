import ReadThrough.Key.Json
import ReadThrough.Text.Uuid
/-!
# Messages between processes

A process that has changed a row tells the others which cached rows are no longer good. A message
names a segment and one key of it, or the whole segment when it names no key, and the process that
sent it.
-/

namespace ReadThrough

open Json

/-- What happened to the rows: they were written, or they were removed. -/
inductive Action where
  | clear
  | delete
  deriving DecidableEq, Repr, Inhabited

/-- The action as JSON writes it. -/
def Action.name : Action → String
  | .clear => "clear"
  | .delete => "delete"

/-- News about cached rows. -/
structure Message where
  action : Action
  segment : String
  /-- The row, or none for every row of the segment. -/
  key : Option Key := none
  /-- The process that sent the message, if it is known. -/
  origin : Option Uuid := none
  deriving DecidableEq, Repr, Inhabited

namespace Message

/-- Reads an action. -/
def readAction : Reader Empty Action := choice [("clear", .clear), ("delete", .delete)]

/-- The identifier of a token. -/
def uuid? (t : Token) : Option Uuid := t.text?.bind Uuid.ofString?

/-- The fields in their order. -/
def fields : List (Field Empty Message) :=
  [.req "action" readAction fun m v => { m with action := v },
   .req "segment" (single Token.text?) fun m v => { m with segment := v },
   .opt "id" (nullable (single Key.ofToken?)) fun m v => { m with key := v },
   .opt "origin" (nullable (single uuid?)) fun m v => { m with origin := v }]

/-- Reads a message. -/
def read : Reader Empty Message := record fields default

/-- The tokens of a message; a key or an origin that it does not name is left out. -/
def tokens (m : Message) : List Token :=
  object <|
    [("action", ofText m.action.name), ("segment", ofText m.segment)] ++
    optional "id" (m.key.map fun k => [k.token]) ++
    optional "origin" (m.origin.map fun u => ofText u.toString)

/-- The payload of a message. -/
def encode (m : Message) : String := write m.tokens

/-- The message of a payload, if it is one. -/
def decode? (payload : String) : Option Message := (Json.decode read payload).toOption

end Message

end ReadThrough
