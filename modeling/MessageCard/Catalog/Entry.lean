import MessageCard.Json.Texts

/-!
# Catalog entries

A catalog holds templates under keys, in two separate spaces, one for messages and one for
notifications. An entry carries the texts of a template before anything is filled in. On the way it
is a JSON object; the texts may stand in it as strings or as the JSON they hold, and so may the
color variables.
-/
namespace MessageCard

/-- The space that a template's key belongs to. -/
inductive TemplateKind where
  | message
  | notification
  deriving DecidableEq

def TemplateKind.name : TemplateKind → String
  | .message => "message"
  | .notification => "notification"

/-- Why a payload of the catalog cannot be used. -/
inductive CatalogFault where
  | malformed (f : Json.SyntaxFault)
  | noKey
  | noTemplate (key : String)
  | colors (key : String) (f : Json.TextsFault)
  | entriesNotArray
  /-- A page that is not the last one does not say where the next one begins. -/
  | noNewToken
  | tooManyPages (limit : Nat)
  deriving DecidableEq

def CatalogFault.message : CatalogFault → String
  | .malformed f => f.message
  | .noKey => "template entry without `key`"
  | .noTemplate key => "template `" ++ key ++ "` without `ui_template`"
  | .colors key f => "color variables of `" ++ key ++ "`: " ++ f.message
  | .entriesNotArray => "`templates` must be an array"
  | .noNewToken => "template list page has more entries but no new token"
  | .tooManyPages limit => "template list did not end within " ++ toString limit ++ " pages"

/-- A template as a catalog holds it. -/
structure TemplateEntry where
  key : String
  /-- The text of the template. -/
  ui : String
  /-- The text of the data that goes with it. -/
  data : String
  /-- The color pairs of its color variables, as they are written. -/
  colors : TextMap
  deriving DecidableEq

namespace TemplateEntry

/-- The text that a value stands for: a string itself, any other value its JSON; null is none. -/
def textOf? : Json → Option String
  | .string s => some s
  | .null => none
  | other => some other.toText

/-- The color variables that a value stands for: the texts of an object, or of the object that a
string holds. -/
def colorsOf (key : String) : Option Json → Except CatalogFault TextMap
  | some (.object members) => .ok (.ofMembers members)
  | some (.string s) =>
    match Json.texts s with
    | .ok colors => .ok colors
    | .error f => .error (.colors key f)
  | _ => .ok .empty

/-- The entry that a value describes. -/
def ofJson (j : Json) : Except CatalogFault TemplateEntry :=
  match (j.get? "key").bind Json.asString? with
  | none => .error .noKey
  | some key =>
    match (j.get? "ui_template").bind textOf? with
    | none => .error (.noTemplate key)
    | some ui =>
      (colorsOf key (j.get? "color_variables")).map fun colors =>
        ⟨key, ui, ((j.get? "data_template").bind textOf?).getD "", colors⟩

/-- The entry that a text describes. -/
def ofText (text : String) : Except CatalogFault TemplateEntry :=
  match Json.ofText text with
  | .ok j => ofJson j
  | .error f => .error (.malformed f)

/-- The entry as an object. -/
def toJson (e : TemplateEntry) : Json :=
  .ofMembers [("key", .string e.key), ("ui_template", .string e.ui),
    ("data_template", .string e.data), ("color_variables", e.colors.toJson)]

/-- The text that describes the entry. -/
def toText (e : TemplateEntry) : String := e.toJson.toText

end TemplateEntry
end MessageCard
