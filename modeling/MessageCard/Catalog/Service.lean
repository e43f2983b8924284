import MessageCard.Catalog.Page

/-!
# The catalog as a service

A service is asked for single entries and for pages, and answers with text. It may answer the same
question differently each time; what it keeps in mind is its state. A list is fetched page by page,
each page with the token of the one before it, up to a greatest number of pages.
-/
namespace MessageCard

/-- Why something could not be fetched. -/
inductive FetchError where
  | notFound (key : String)
  | transport (reason : String)
  | malformed (f : CatalogFault)
  | exhausted (key : String)
  deriving DecidableEq

def FetchError.message : FetchError → String
  | .notFound key => "template `" ++ key ++ "` not found"
  | .transport reason => "transport error: " ++ reason
  | .malformed f => "malformed payload: " ++ f.message
  | .exhausted key => "retry limit reached for `" ++ key ++ "`"

/-- What the service answers: a text, or why there is none. -/
abbrev CatalogAnswer := Except FetchError String

/-- A service with states `σ`. -/
structure CatalogService (σ : Type) where
  /-- The entry under a key. -/
  entry : TemplateKind → String → σ → CatalogAnswer × σ
  /-- The page of what is new since a token. -/
  page : TemplateKind → Option String → σ → CatalogAnswer × σ

/-- The entry that an answer brings. -/
def readEntry (a : CatalogAnswer) : Except FetchError TemplateEntry :=
  match a with
  | .error e => .error e
  | .ok text => (TemplateEntry.ofText text).mapError .malformed

/-- The page that an answer brings. -/
def readPage (a : CatalogAnswer) : Except FetchError CatalogPage :=
  match a with
  | .error e => .error e
  | .ok text => (CatalogPage.ofText text).mapError .malformed

namespace CatalogService

variable {σ : Type}

/-- The greatest number of pages of one list. -/
def pageLimit : Nat := 100

/-- The list from a token on, after some entries, in one page and at most `more` further ones. -/
def follow (service : CatalogService σ) (kind : TemplateKind) :
    Nat → List TemplateEntry → Option String → σ → Except FetchError CatalogPage × σ
  | more, entries, token, s =>
    let (answer, s) := service.page kind token s
    match readPage answer with
    | .error e => (.error e, s)
    | .ok page =>
      let entries := entries ++ page.entries
      if page.hasMore = false then (.ok ⟨entries, page.token.or token, false⟩, s)
      else if page.token = none ∨ page.token = token then (.error (.malformed .noNewToken), s)
      else match more with
        | 0 => (.error (.malformed (.tooManyPages pageLimit)), s)
        | more + 1 => follow service kind more entries page.token s

/-- The whole list of what is new since a token, as one page. -/
def fetchAll (service : CatalogService σ) (kind : TemplateKind) (since : Option String) :
    σ → Except FetchError CatalogPage × σ :=
  service.follow kind (pageLimit - 1) [] since

end CatalogService
end MessageCard
