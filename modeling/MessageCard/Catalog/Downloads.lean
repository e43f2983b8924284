import MessageCard.Attempts
import MessageCard.Catalog.Service
import MessageCard.Catalog.Shelf
import MessageCard.Payload
import MessageCard.Placeholder
import MessageCard.StandIn
import MessageCard.Template.Reader

/-!
# Downloads

A message's template is looked up on the shelf, and downloaded when it is not there. A download is
asked for, answered and delivered, and these may be far apart: what is asked for and not yet
delivered is running, and nothing is downloaded twice at a time. Every failure, and every entry on
the shelf that turns out to be no template, costs an attempt; a key without attempts left is not
downloaded any more.
-/
namespace MessageCard

/-- Why a message has no template. -/
inductive TemplateError where
  | parse (f : TemplateFault)
  | color (e : ColorError)
  | missing (key : String)
  deriving DecidableEq

def TemplateError.message : TemplateError → String
  | .parse f => f.message
  | .color e => e.message
  | .missing key => "template `" ++ key ++ "` is unavailable"

/-- What bodies that stand in for a template depend on. -/
structure StandInSettings where
  theme : Theme
  appearance : Appearance
  /-- The height of the body shown during a download. -/
  height : Binary64

/-- What a message shows. -/
inductive Resolution where
  /-- Its template, and the data that goes with it. -/
  | ready (template : Template) (data : String)
  /-- A body that stands in during a download, and whether the download is yet to be asked for. -/
  | downloading (body : List Item) (needsRequest : Bool)
  /-- A body that stands in for good. -/
  | failed (body : List Item) (error : TemplateError)

/-- The body that stands in for the template. -/
def Resolution.standIn? : Resolution → Option (List Item)
  | .ready _ _ => none
  | .downloading body _ => some body
  | .failed body _ => some body

/-- The shelf, the attempts of all keys, and the downloads that are running. -/
structure Downloads where
  shelf : Shelf
  attempts : Attempts
  running : List (TemplateKind × String)

namespace Downloads

def ofLimit (limit : Nat) : Downloads := ⟨.empty, .ofLimit limit, []⟩

def isRunning (d : Downloads) (kind : TemplateKind) (key : String) : Bool :=
  d.running.contains (kind, key)

/-! ## Resolving -/

def failed (s : StandInSettings) (e : TemplateError) : Resolution :=
  .failed (StandIn.themed s.theme s.appearance) e

/-- What a message shows whose template is not at hand. -/
def notReady (d : Downloads) (kind : TemplateKind) (key : String) (s : StandInSettings)
    (e : TemplateError) : Resolution :=
  if d.attempts.allows key then
    .downloading (StandIn.downloading s.theme s.appearance s.height) (!d.isRunning kind key)
  else failed s e

/-- An entry is dropped because it is no template. -/
def drop (d : Downloads) (kind : TemplateKind) (key : String) : Downloads :=
  { d with attempts := d.attempts.fail key, shelf := d.shelf.remove kind key }

/-- The template of an entry, filled in and read. -/
def readTemplate (text : String) : Except TemplateFault Template :=
  (Template.ofText text).bind Template.ensureSupported

/-- What a message shows. -/
def resolve (d : Downloads) (kind : TemplateKind) (p : Payload) (s : StandInSettings) :
    Resolution × Downloads :=
  match d.shelf.get? kind p.key with
  | none => (d.notReady kind p.key s (.missing p.key), d)
  | some entry =>
    match readColors s.theme.mode entry.colors.entries with
    | .error e => (failed s (.color e), d)
    | .ok colors =>
      let fill := Placeholder.bind p.values (colors.on s.appearance)
      match readTemplate (fill entry.ui) with
      | .ok template => (.ready template (fill entry.data), d)
      | .error f =>
        let d := d.drop kind p.key
        (d.notReady kind p.key s (.parse f), d)

/-! ## Downloading -/

/-- The downloads after a request, if it starts one. -/
def request? (d : Downloads) (kind : TemplateKind) (key : String) : Option Downloads :=
  if d.attempts.allows key = false ∨ d.isRunning kind key = true then none
  else some { d with running := (kind, key) :: d.running }

/-- What an answer of the service is worth; a failure costs an attempt. -/
def receive (d : Downloads) (key : String) (a : CatalogAnswer) :
    Except FetchError TemplateEntry × Downloads :=
  match readEntry a with
  | .ok entry => (.ok entry, d)
  | .error e => (.error e, { d with attempts := d.attempts.fail key })

/-- An entry from the service. Without an attempt left the service is not asked. -/
def fetch {σ : Type} (service : CatalogService σ) (kind : TemplateKind) (key : String)
    (d : Downloads) (s : σ) : Except FetchError TemplateEntry × Downloads × σ :=
  if d.attempts.allows key then
    let (answer, s) := service.entry kind key s
    let (result, d) := d.receive key answer
    (result, d, s)
  else (.error (.exhausted key), d, s)

/-- The downloads after the end of one of them. -/
def deliver (d : Downloads) (kind : TemplateKind) (key : String)
    (result : Except FetchError TemplateEntry) : Downloads :=
  { d with
    shelf := match result with
      | .ok entry => d.shelf.insert kind entry
      | .error _ => d.shelf
    running := d.running.erase (kind, key) }

/-! ## Lists -/

/-- Where a list has to start, if one is needed to reach a token of the catalog. -/
def listStart? (d : Downloads) (kind : TemplateKind) (token : String) : Option (Option String) :=
  if d.shelf.isBehind kind token then some (d.shelf.token? kind) else none

/-- The downloads after a list. -/
def take (d : Downloads) (kind : TemplateKind) (p : CatalogPage) : Downloads :=
  { d with shelf := d.shelf.take kind p }

end Downloads
end MessageCard
