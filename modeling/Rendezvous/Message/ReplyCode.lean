import Rendezvous.Message.Json
/-!
# Reply codes

Every reply carries one code. A request that fails is answered with the code of its failure, never
with silence.
-/

namespace Rendezvous

/-- How a request went. -/
inductive ReplyCode
  | noError
  /-- The message names another service. -/
  | invalidId
  /-- A field is missing or cannot be read. -/
  | invalidData
  /-- An update names a constant attribute. -/
  | invalidAttribute
  /-- The query is no sound tree. -/
  | invalidQuery
  | unknownComponent
  | unknownSubscriber
  | unknownCallback
  /-- The cursor is not open. -/
  | queryNotFound
  /-- There is no query. -/
  | emptyQuery
  /-- The query found nothing. -/
  | emptyResult
  /-- Something failed outside the service. -/
  | ioError
deriving DecidableEq, Inhabited, Repr

namespace ReplyCode

/-- The word for a code. -/
def name : ReplyCode → String
  | noError => "noError"
  | invalidId => "invalidId"
  | invalidData => "invalidData"
  | invalidAttribute => "invalidAttribute"
  | invalidQuery => "invalidQuery"
  | unknownComponent => "unknownComponent"
  | unknownSubscriber => "unknownSubscriber"
  | unknownCallback => "unknownCallback"
  | queryNotFound => "queryNotFound"
  | emptyQuery => "emptyQuery"
  | emptyResult => "emptyResult"
  | ioError => "ioError"

/-- The codes with their names in stored form. -/
def stored : List (String × ReplyCode) :=
  [("NoError", noError), ("InvalidId", invalidId), ("InvalidData", invalidData),
    ("InvalidAttribute", invalidAttribute), ("InvalidQuery", invalidQuery),
    ("UnknownComponent", unknownComponent), ("UnknownSubscriber", unknownSubscriber),
    ("UnknownCallback", unknownCallback), ("QueryNotFound", queryNotFound),
    ("EmptyQuery", emptyQuery), ("EmptyResult", emptyResult), ("IoError", ioError)]

/-- Every code. -/
def all : List ReplyCode := stored.map Prod.snd

/-- Reads a code. -/
def ofText (raw : String) : Except DecodeError ReplyCode :=
  let word := Text.trim raw
  match all.find? fun c => c.name = word with
  | some c => .ok c
  | none => .error (.unknownVariant "error code" word)

/-- Whether the code is that of success. -/
def isOk (c : ReplyCode) : Bool := c = noError

/-- The code by its name in stored form. -/
def toJson (c : ReplyCode) : Json :=
  .string (((stored.find? fun e => e.2 = c).map Prod.fst).getD "")

/-- Reads a code in stored form. -/
def ofJson? : Json.Decoder ReplyCode := Json.asWord stored

end ReplyCode

end Rendezvous
