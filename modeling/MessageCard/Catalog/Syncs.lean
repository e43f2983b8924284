import MessageCard.Catalog.Session

/-!
# Lists in any order

Lists of the catalog overlap as downloads do. Each is asked for with the token that the shelf has at
that moment, and nothing is known about when it comes and when it is delivered; a step asks for a
list, lets one come or fail, delivers one, or changes the desk in between. What the service brings
is open, as far as some service can bring it.
-/
namespace MessageCard

/-- Whether some service, in some state, brings a list since a token. -/
def CatalogPage.ComesSince (list : CatalogPage) (kind : TemplateKind) (since : Option String) :
    Prop :=
  ∃ (σ : Type) (service : CatalogService σ) (s : σ), (service.fetchAll kind since s).1 = .ok list

/-- A list that was asked for. -/
structure ListSync where
  /-- Its place in the order of requests. -/
  number : Nat
  kind : TemplateKind
  /-- The token of the shelf at the request. -/
  since : Option String
  /-- The list, once it has come. -/
  list : Option CatalogPage

/-- The sync of a list that has come. -/
def ListSync.withList (x : ListSync) (list : CatalogPage) : ListSync := { x with list := some list }

/-- What happened in a step. A sync stands in it as it was before. -/
inductive SyncEvent where
  | request (x : ListSync)
  | come (x : ListSync) (list : CatalogPage)
  | fail (x : ListSync)
  | deliver (x : ListSync) (list : CatalogPage)
  /-- The desk changes, but no token. -/
  | aside
  /-- The owner of the shelf changes it. -/
  | restock

/-- The desk, and the lists that were asked for and are not delivered, the last one first. -/
structure Syncs where
  desk : Desk
  outstanding : List ListSync
  /-- The number of requests that started a sync. -/
  requests : Nat

namespace Syncs

/-- A desk before any request. -/
def opening (desk : Desk) : Syncs := ⟨desk, [], 0⟩

def shelf (t : Syncs) : Shelf := t.desk.downloads.shelf

/-- The token of the last list of a kind. -/
def token? (t : Syncs) (kind : TemplateKind) : Option String := t.shelf.token? kind

/-- The sync that a request starts. -/
def next (t : Syncs) (kind : TemplateKind) (since : Option String) : ListSync :=
  ⟨t.requests, kind, since, none⟩

/-- What may happen next. -/
inductive Step : Syncs → SyncEvent → Syncs → Prop where
  | request {t : Syncs} {kind : TemplateKind} {token : String} {since : Option String}
      (starts : t.desk.downloads.listStart? kind token = some since) :
      Step t (.request (t.next kind since))
        ⟨t.desk, t.next kind since :: t.outstanding, t.requests + 1⟩
  | come {t : Syncs} {x : ListSync} {earlier later : List ListSync} {list : CatalogPage}
      (present : t.outstanding = earlier ++ x :: later) (waits : x.list = none)
      (comes : list.ComesSince x.kind x.since) :
      Step t (.come x list) { t with outstanding := earlier ++ x.withList list :: later }
  | fail {t : Syncs} {x : ListSync} {earlier later : List ListSync}
      (present : t.outstanding = earlier ++ x :: later) (waits : x.list = none) :
      Step t (.fail x) { t with outstanding := earlier ++ later }
  | deliver {t : Syncs} {x : ListSync} {earlier later : List ListSync} {list : CatalogPage}
      (present : t.outstanding = earlier ++ x :: later) (came : x.list = some list) :
      Step t (.deliver x list)
        ⟨t.desk.deliver (.list x.kind list), earlier ++ later, t.requests⟩
  | aside {t : Syncs} {desk : Desk}
      (kept : ∀ kind, desk.downloads.shelf.token? kind = t.token? kind) :
      Step t .aside { t with desk }
  | restock {t : Syncs} (desk : Desk) : Step t .restock { t with desk }

/-- What may happen, step by step. -/
inductive Run : Syncs → List SyncEvent → Syncs → Prop where
  | nil {t : Syncs} : Run t [] t
  | concat {t u v : Syncs} {es : List SyncEvent} {e : SyncEvent} :
      Run t es u → Step u e v → Run t (es ++ [e]) v

end Syncs
end MessageCard
