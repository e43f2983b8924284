import MessageCard.Catalog.Page
import MessageCard.Catalog.SyncToken
import MessageCard.Table

/-!
# The templates at hand

The shelf keeps the entries that have come from the catalog, and for each kind the token of the list
they came with. An entry is kept as it was delivered: it is filled in and read anew for every
message.
-/
namespace MessageCard

/-- The entries at hand, by kind and key, and the tokens, by kind. -/
structure Shelf where
  entries : Table (TemplateKind × String) TemplateEntry
  tokens : Table TemplateKind String

namespace Shelf

def empty : Shelf := ⟨.empty, .empty⟩

instance : Inhabited Shelf := ⟨empty⟩

def size (s : Shelf) : Nat := s.entries.size

/-- The entry under a key. -/
def get? (s : Shelf) (kind : TemplateKind) (key : String) : Option TemplateEntry :=
  s.entries.find? (kind, key)

def contains (s : Shelf) (kind : TemplateKind) (key : String) : Bool :=
  s.entries.contains (kind, key)

/-- The keys of a kind, in order. -/
def keys (s : Shelf) (kind : TemplateKind) : List String :=
  ((s.entries.keys.filter (·.1 = kind)).map (·.2)).mergeSort fun a b => a ≤ b

/-- The shelf with an entry under its own key. -/
def insert (s : Shelf) (kind : TemplateKind) (e : TemplateEntry) : Shelf :=
  { s with entries := s.entries.insert (kind, e.key) e }

/-- The shelf with some entries, of which the last one under a key stays. -/
def insertAll (s : Shelf) (kind : TemplateKind) (es : List TemplateEntry) : Shelf :=
  es.foldl (·.insert kind ·) s

def remove (s : Shelf) (kind : TemplateKind) (key : String) : Shelf :=
  { s with entries := s.entries.erase (kind, key) }

/-- The token of the last list of a kind. -/
def token? (s : Shelf) (kind : TemplateKind) : Option String := s.tokens.find? kind

def setToken (s : Shelf) (kind : TemplateKind) (token : String) : Shelf :=
  { s with tokens := s.tokens.insert kind token }

/-- The shelf without the entries and the token of a kind. -/
def clear (s : Shelf) (kind : TemplateKind) : Shelf :=
  ⟨s.entries.filterKeys (·.1 ≠ kind), s.tokens.erase kind⟩

/-- Whether a token of the catalog marks a newer state than that of the shelf. -/
def isBehind (s : Shelf) (kind : TemplateKind) (token : String) : Bool :=
  match s.token? kind with
  | none => true
  | some own => SyncToken.order token own = .gt

/-- The shelf with the entries of a page, and its token if it has one. -/
def take (s : Shelf) (kind : TemplateKind) (p : CatalogPage) : Shelf :=
  let filled := s.insertAll kind p.entries
  match p.token with
  | some token => filled.setToken kind token
  | none => filled

@[simp] theorem get?_insert (s : Shelf) (kind other : TemplateKind) (e : TemplateEntry)
    (key : String) :
    (s.insert kind e).get? other key =
      if (kind, e.key) = (other, key) then some e else s.get? other key :=
  Table.find?_insert ..

@[simp] theorem get?_remove (s : Shelf) (kind other : TemplateKind) (key wanted : String) :
    (s.remove kind key).get? other wanted =
      if (kind, key) = (other, wanted) then none else s.get? other wanted :=
  Table.find?_erase ..

@[simp] theorem get?_setToken (s : Shelf) (kind other : TemplateKind) (token key : String) :
    (s.setToken kind token).get? other key = s.get? other key := rfl

@[simp] theorem token?_insert (s : Shelf) (kind other : TemplateKind) (e : TemplateEntry) :
    (s.insert kind e).token? other = s.token? other := rfl

@[simp] theorem token?_setToken (s : Shelf) (kind other : TemplateKind) (token : String) :
    (s.setToken kind token).token? other = if kind = other then some token else s.token? other :=
  Table.find?_insert ..

end Shelf
end MessageCard
