import MessageCard.Catalog.Service
import MessageCard.Catalog.SyncToken
import MessageCard.Table

/-!
# A local catalog

A catalog that is held in memory lists all entries of a kind on one page, in the order of their
keys, unless the one who asks is up to date.
-/
namespace MessageCard

/-- The entries of a catalog, by kind and key, and the token of their state. -/
structure LocalCatalog where
  entries : Table (TemplateKind × String) TemplateEntry
  token : Option String

namespace LocalCatalog

def empty : LocalCatalog := ⟨.empty, none⟩

instance : Inhabited LocalCatalog := ⟨empty⟩

/-- The catalog with an entry under its own key. -/
def insert (c : LocalCatalog) (kind : TemplateKind) (e : TemplateEntry) : LocalCatalog :=
  { c with entries := c.entries.insert (kind, e.key) e }

def setToken (c : LocalCatalog) (token : String) : LocalCatalog := { c with token := some token }

/-- The entries of a kind, in the order of their keys. -/
def list (c : LocalCatalog) (kind : TemplateKind) : List TemplateEntry :=
  ((c.entries.entries.filter (·.1.1 = kind)).map (·.2)).mergeSort fun a b => a.key ≤ b.key

/-- Whether nothing is new since a token. -/
def isKnownTo (c : LocalCatalog) (since : Option String) : Bool :=
  match since, c.token with
  | some since, some now => SyncToken.order since now ≠ .lt
  | _, _ => false

/-- The page of what is new since a token. -/
def page (c : LocalCatalog) (kind : TemplateKind) (since : Option String) : CatalogPage :=
  ⟨if c.isKnownTo since then [] else c.list kind, c.token, false⟩

/-- The answer to a request for an entry. -/
def answer (c : LocalCatalog) (kind : TemplateKind) (key : String) : CatalogAnswer :=
  match c.entries.find? (kind, key) with
  | some e => .ok e.toText
  | none => .error (.notFound key)

/-- The catalog as a service, which answers and stays as it is. -/
def service : CatalogService LocalCatalog where
  entry kind key c := (c.answer kind key, c)
  page kind since c := (.ok (c.page kind since).toText, c)

end LocalCatalog
end MessageCard
