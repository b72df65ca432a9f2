import Bookkeeping.Engine.Log
import Bookkeeping.Posting.Schema
/-! Reported events as lines, plain or as JSON objects. -/
namespace Bookkeeping

namespace Severity

def text : Severity → String
  | info => "INFO"
  | warn => "WARN"
  | error => "ERROR"

/-- Whether a level of detail shows events of a severity; a level that is not known shows all. -/
def isShownAt (level : String) : Severity → Bool
  | info => !(["off", "error", "warn"].contains level)
  | warn => !(["off", "error"].contains level)
  | error => level != "off"

end Severity

namespace LogEvent

def fields (e : LogEvent) : List (String × List Char) :=
  (e.errorText.map fun s => ("error", Json.writeText s)).toList ++
    (e.key.map fun s => ("key", Json.writeText s)).toList ++
    (e.count.map fun c => (c.1, Text.digits c.2)).toList ++
    match e with
    | published topic notice =>
      [("topic", Json.writeText topic), ("payload", Json.writeText (.ofList notice.write))]
    | _ => []

def plainLine (e : LogEvent) : String :=
  e.severity.text ++ " " ++ e.message ++
    .ofList (e.fields.flatMap fun f => ' ' :: f.1.toList ++ '=' :: f.2)

def jsonLine (e : LogEvent) : String :=
  .ofList (Json.writeObject
    (("level", Json.writeText e.severity.text) :: ("message", Json.writeText e.message) ::
      e.fields))

end LogEvent

end Bookkeeping
