import MessageCard.Catalog.Downloads
import MessageCard.WorkQueue

/-!
# Downloads at work

Requests start tasks, which talk to the service later and elsewhere. What they bring is handed to
the thread that the shelf belongs to: on that thread at once, from any other through its queue.
Every entry that ends its download, and every list that brings something, signals that cards have to
be shown anew.
-/
namespace MessageCard

/-- Where the outcome of a task is applied. -/
inductive Delivering where
  /-- At once, wherever the task runs. -/
  | atOnce
  /-- On the thread that owns the shelf. -/
  | onOwner
  deriving DecidableEq

/-- Something to ask the service for. -/
inductive CatalogTask where
  | entry (kind : TemplateKind) (key : String)
  | list (kind : TemplateKind) (since : Option String)

/-- What a task brings. -/
inductive Delivery where
  | entry (kind : TemplateKind) (key : String) (result : Except FetchError TemplateEntry)
  | list (kind : TemplateKind) (page : CatalogPage)

/-- The downloads, and how often cards were to be shown anew. -/
structure Desk where
  downloads : Downloads
  reloads : Nat

/-- The desk after a delivery. -/
def Desk.deliver (d : Delivery) (desk : Desk) : Desk :=
  match d with
  | .entry kind key result =>
    ⟨desk.downloads.deliver kind key result, desk.reloads + 1⟩
  | .list kind page =>
    ⟨desk.downloads.take kind page, desk.reloads + if page.entries.isEmpty then 0 else 1⟩

/-- The desk with its queue, the service, and the tasks that have started, the first one first. -/
structure Session (σ : Type) where
  queue : WorkQueue Delivery Desk
  service : CatalogService σ
  state : σ
  started : List (CatalogTask × Delivering)

namespace Session

variable {σ : Type}

def ofLimit (service : CatalogService σ) (state : σ) (limit : Nat) : Session σ :=
  ⟨.ofWorld ⟨.ofLimit limit, 0⟩, service, state, []⟩

def desk (s : Session σ) : Desk := s.queue.world

def downloads (s : Session σ) : Downloads := s.desk.downloads

def withDownloads (s : Session σ) (downloads : Downloads) : Session σ :=
  { s with queue := { s.queue with world := { s.desk with downloads } } }

/-- A task starts. -/
def start (s : Session σ) (task : CatalogTask) (way : Delivering) : Session σ :=
  { s with started := s.started ++ [(task, way)] }

/-- A download is asked for. -/
def request? (s : Session σ) (kind : TemplateKind) (key : String) (way : Delivering) :
    Option (Session σ) :=
  (s.downloads.request? kind key).map fun d => (s.withDownloads d).start (.entry kind key) way

/-- A list is asked for, because the catalog has come to a token. -/
def requestList? (s : Session σ) (kind : TemplateKind) (token : String) (way : Delivering) :
    Option (Session σ) :=
  (s.downloads.listStart? kind token).map fun since => s.start (.list kind since) way

/-- An entry is fetched and handed back to the caller. -/
def fetch (s : Session σ) (kind : TemplateKind) (key : String) :
    Except FetchError TemplateEntry × Session σ :=
  let (result, d, state) := s.downloads.fetch s.service kind key s.state
  (result, { s.withDownloads d with state })

/-- A list is fetched and handed back to the caller. -/
def fetchList (s : Session σ) (kind : TemplateKind) (since : Option String) :
    Except FetchError CatalogPage × Session σ :=
  let (result, state) := s.service.fetchAll kind since s.state
  (result, { s with state })

/-- A task talks to the service. -/
def ask (s : Session σ) : CatalogTask → Option Delivery × Session σ
  | .entry kind key =>
    let (result, s) := s.fetch kind key
    (some (.entry kind key result), s)
  | .list kind since =>
    let (result, s) := s.fetchList kind since
    (result.toOption.map (.list kind), s)

/-- What a task brings is handed over. -/
def handOver (s : Session σ) (caller : Caller) (way : Delivering) (d : Delivery) : Session σ :=
  let caller := match way with
    | .atOnce => .owner
    | .onOwner => caller
  { s with queue := s.queue.complete Desk.deliver caller (.plain d) }

/-- A task runs from beginning to end. -/
def runTask (caller : Caller) (s : Session σ) (task : CatalogTask × Delivering) : Session σ :=
  match s.ask task.1 with
  | (none, s) => s
  | (some d, s) => s.handOver caller task.2 d

/-- All tasks that have started run, one after the other. -/
def runTasks (s : Session σ) (caller : Caller) : Session σ :=
  s.started.foldl (runTask caller) { s with started := [] }

/-- The owner runs what is waiting for it. -/
def runWaiting (s : Session σ) : Nat × Session σ :=
  let (n, queue) := s.queue.runWaiting Desk.deliver .owner
  (n, { s with queue })

end Session
end MessageCard
