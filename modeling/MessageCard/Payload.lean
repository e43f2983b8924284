import MessageCard.Json.Reader
import MessageCard.Json.Writer

/-!
# Payloads

A message names its template and brings the values of the template's variables.
-/
namespace MessageCard

/-- Which template a message wants, with the values of its variables. -/
structure Payload where
  key : String
  values : List (String × String)
  deriving DecidableEq

namespace Payload

/-- The value of a variable: a text as it is, nothing for null, anything else as JSON. -/
def textOf : Json → String
  | .string s => s
  | .null => ""
  | other => other.toText

/-- The variables of a JSON object. -/
def variablesOf : Option Json → List (String × String)
  | some (.object members) => members.map fun m => (m.1, textOf m.2)
  | _ => []

/-- The payload that a JSON value describes; it needs a key. -/
def ofJson? (j : Json) : Option Payload := do
  let key ← (← j.get? "key").asString?
  return ⟨key, variablesOf (j.get? "variables")⟩

/-- The payload that a JSON text describes. -/
def ofText? (text : String) : Option Payload :=
  match Json.ofText text with
  | .ok j => ofJson? j
  | .error _ => none

end Payload
end MessageCard
