import MessageCard.Catalog.Entry

/-!
# Catalog pages

The catalog is listed page by page. A page has entries, the token that marks the state they bring
about, and whether there are more of them.
-/
namespace MessageCard

/-- Entries of the catalog, with the token that comes with them. -/
structure CatalogPage where
  entries : List TemplateEntry
  token : Option String
  hasMore : Bool
  deriving DecidableEq

namespace CatalogPage

/-- The entries that a value lists. -/
def entriesOf : Option Json → Except CatalogFault (List TemplateEntry)
  | none | some .null => .ok []
  | some (.array items) => items.mapM TemplateEntry.ofJson
  | some _ => .error .entriesNotArray

/-- The token that a value stands for: a string, or a number as it is written. -/
def tokenOf? : Json → Option String
  | .string s => some s
  | .number n => some (Json.number n).toText
  | _ => none

/-- The page that a value describes. -/
def ofJson (j : Json) : Except CatalogFault CatalogPage :=
  (entriesOf (j.get? "templates")).map fun entries =>
    { entries
      token := (j.get? "token").bind tokenOf?
      hasMore := match j.get? "has_more" with
        | some (.bool b) => b
        | _ => false }

/-- The page that a text describes. -/
def ofText (text : String) : Except CatalogFault CatalogPage :=
  match Json.ofText text with
  | .ok j => ofJson j
  | .error f => .error (.malformed f)

/-- The page as an object. -/
def toJson (p : CatalogPage) : Json :=
  .ofMembers [("templates", .array (p.entries.map TemplateEntry.toJson)),
    ("token", .ofString? p.token), ("has_more", .bool p.hasMore)]

/-- The text that describes the page. -/
def toText (p : CatalogPage) : String := p.toJson.toText

end CatalogPage
end MessageCard
