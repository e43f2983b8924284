import MessageCard.Catalog.Session

/-!
# Downloads in any order

Downloads of many keys overlap, and nothing is known about when their answers come and when they are
delivered. A download is asked for, turns to the service if the budget still allows it, gets its
answer, and is delivered; a step moves one download on by one of these, or changes the desk in
between. What the service answers is open. A run is recorded by its events, the first one first.
-/
namespace MessageCard

/-- How far a download has come. -/
inductive Phase where
  | started
  /-- The service has been asked. -/
  | asking
  /-- The outcome waits to be delivered. -/
  | finished (result : Except FetchError TemplateEntry)

/-- A download that was asked for. -/
structure Transfer where
  /-- Its place in the order of requests. -/
  number : Nat
  kind : TemplateKind
  key : String
  /-- The failures of the key at the request. -/
  before : Nat
  phase : Phase

namespace Transfer

/-- What a download is for. -/
def target (x : Transfer) : TemplateKind × String := (x.kind, x.key)

def inPhase (x : Transfer) (phase : Phase) : Transfer := { x with phase }

/-- Whether the outcome is an entry of another key than the one that was asked for. -/
def isStray (x : Transfer) : Bool :=
  match x.phase with
  | .finished (.ok e) => e.key ≠ x.key
  | _ => false

@[simp] theorem number_inPhase (x : Transfer) (phase : Phase) :
    (x.inPhase phase).number = x.number := rfl

@[simp] theorem kind_inPhase (x : Transfer) (phase : Phase) :
    (x.inPhase phase).kind = x.kind := rfl

@[simp] theorem key_inPhase (x : Transfer) (phase : Phase) : (x.inPhase phase).key = x.key := rfl

@[simp] theorem before_inPhase (x : Transfer) (phase : Phase) :
    (x.inPhase phase).before = x.before := rfl

@[simp] theorem phase_inPhase (x : Transfer) (phase : Phase) : (x.inPhase phase).phase = phase :=
  rfl

@[simp] theorem target_inPhase (x : Transfer) (phase : Phase) :
    (x.inPhase phase).target = x.target := rfl

end Transfer

/-- What may happen to the desk besides downloads. -/
inductive Aside where
  /-- A message is resolved. -/
  | resolve (kind : TemplateKind) (p : Payload) (s : StandInSettings)
  /-- A list of the catalog is taken. -/
  | list (kind : TemplateKind) (page : CatalogPage)
  /-- The owner of the shelf changes it. -/
  | restock (shelf : Shelf)
  /-- Somebody else records a failure. -/
  | charge (key : String)
  /-- The failures of a key are forgotten. -/
  | reset (key : String)

/-- The desk after something besides downloads. -/
def Aside.apply (a : Aside) (desk : Desk) : Desk :=
  match a with
  | .resolve kind p s => { desk with downloads := (desk.downloads.resolve kind p s).2 }
  | .list kind page => desk.deliver (.list kind page)
  | .restock shelf => { desk with downloads := { desk.downloads with shelf } }
  | .charge key =>
    { desk with
      downloads := { desk.downloads with attempts := desk.downloads.attempts.fail key } }
  | .reset key =>
    { desk with
      downloads := { desk.downloads with attempts := desk.downloads.attempts.reset key } }

/-- What happened in a step. A download stands in it as it was before. -/
inductive Event where
  | request (kind : TemplateKind) (key : String)
  /-- A download turns to the service. -/
  | ask (x : Transfer)
  /-- A download finds its budget spent. -/
  | refuse (x : Transfer)
  | answer (x : Transfer) (a : CatalogAnswer)
  /-- A download is delivered, and the shelf is then without an entry for it, or not. -/
  | deliver (x : Transfer) (missed : Bool)
  | aside (a : Aside)

namespace Event

/-- What a request was for. -/
def requested? : Event → Option (TemplateKind × String)
  | .request kind key => some (kind, key)
  | _ => none

/-- The number of the download that was delivered. -/
def delivered? : Event → Option Nat
  | .deliver x _ => some x.number
  | _ => none

def asksFor (key : String) : Event → Bool
  | .ask x => x.key = key
  | _ => false

/-- Whether a contact with the service failed for a key. -/
def failsFor (key : String) : Event → Bool
  | .answer x a => x.key = key && (readEntry a).toBool = false
  | _ => false

/-- Whether a download, one of those from a number on, left its target missing. -/
def missesFrom (number : Nat) (target : TemplateKind × String) : Event → Bool
  | .deliver x missed => missed && number ≤ x.number && x.target = target
  | _ => false

/-- Whether an entry of another key was delivered. -/
def isStray : Event → Bool
  | .deliver x _ => x.isStray
  | _ => false

/-- The key whose failures may have changed. -/
def countedKey? : Event → Option String
  | .answer x _ => some x.key
  | .aside (.resolve _ p _) => some p.key
  | .aside (.charge key) => some key
  | .aside (.reset key) => some key
  | _ => none

end Event

/-- The desk, and the downloads that were asked for and are not delivered, the last one first. -/
structure Traffic where
  desk : Desk
  transfers : List Transfer
  /-- The number of requests that started a download. -/
  requests : Nat

namespace Traffic

/-- A desk with a shelf and attempts of its own, before any request. -/
def opening (shelf : Shelf) (attempts : Attempts) : Traffic := ⟨⟨⟨shelf, attempts, []⟩, 0⟩, [], 0⟩

def downloads (t : Traffic) : Downloads := t.desk.downloads

def withDownloads (t : Traffic) (downloads : Downloads) : Traffic :=
  { t with desk := { t.desk with downloads } }

def count (t : Traffic) (key : String) : Nat := t.downloads.attempts.count key

def limit (t : Traffic) : Nat := t.downloads.attempts.limit

/-- Whether there is no entry for a target. -/
def misses (t : Traffic) (target : TemplateKind × String) : Bool :=
  !t.downloads.shelf.contains target.1 target.2

/-- The traffic with a new download. -/
def start (t : Traffic) (kind : TemplateKind) (key : String) : Traffic :=
  { t with
    transfers := ⟨t.requests, kind, key, t.count key, .started⟩ :: t.transfers
    requests := t.requests + 1 }

/-- The desk gets an outcome. -/
def deliver (t : Traffic) (x : Transfer) (result : Except FetchError TemplateEntry) : Traffic :=
  { t with desk := t.desk.deliver (.entry x.kind x.key result) }

/-- What may happen next. -/
inductive Step : Traffic → Event → Traffic → Prop where
  | request {t : Traffic} {kind : TemplateKind} {key : String} {d : Downloads}
      (starts : t.downloads.request? kind key = some d) :
      Step t (.request kind key) ((t.start kind key).withDownloads d)
  | ask {t : Traffic} {x : Transfer} {earlier later : List Transfer}
      (present : t.transfers = earlier ++ x :: later) (started : x.phase = .started)
      (allowed : t.downloads.attempts.allows x.key = true) :
      Step t (.ask x) { t with transfers := earlier ++ x.inPhase .asking :: later }
  | refuse {t : Traffic} {x : Transfer} {earlier later : List Transfer}
      (present : t.transfers = earlier ++ x :: later) (started : x.phase = .started)
      (spent : t.downloads.attempts.allows x.key = false) :
      Step t (.refuse x) { t with
        transfers := earlier ++ x.inPhase (.finished (.error (.exhausted x.key))) :: later }
  | answer {t : Traffic} {x : Transfer} {earlier later : List Transfer}
      (present : t.transfers = earlier ++ x :: later) (asking : x.phase = .asking)
      (a : CatalogAnswer) :
      Step t (.answer x a) { t.withDownloads (t.downloads.receive x.key a).2 with
        transfers := earlier ++ x.inPhase (.finished (t.downloads.receive x.key a).1) :: later }
  | deliver {t : Traffic} {x : Transfer} {earlier later : List Transfer}
      {result : Except FetchError TemplateEntry}
      (present : t.transfers = earlier ++ x :: later) (finished : x.phase = .finished result) :
      Step t (.deliver x ((t.deliver x result).misses x.target))
        { t.deliver x result with transfers := earlier ++ later }
  | aside {t : Traffic} (a : Aside) : Step t (.aside a) { t with desk := a.apply t.desk }

/-- What may happen, step by step. -/
inductive Run : Traffic → List Event → Traffic → Prop where
  | nil {t : Traffic} : Run t [] t
  | concat {t u v : Traffic} {es : List Event} {e : Event} :
      Run t es u → Step u e v → Run t (es ++ [e]) v

/-- What can come about from a desk without downloads, by some events. -/
def Reachable (past : List Event) (t : Traffic) : Prop :=
  ∃ shelf attempts, Run (opening shelf attempts) past t

end Traffic
end MessageCard
