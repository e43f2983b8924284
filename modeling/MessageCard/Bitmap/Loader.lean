import MessageCard.Attempts
import MessageCard.Bitmap.Encoded
import MessageCard.Bitmap.FileName
import MessageCard.Bitmap.Sizes
import MessageCard.Bitmap.Store

/-!
# Loading bitmaps

A bitmap is taken from the store, or else fetched, decoded and stored. Its size is remembered under
its URL either way. Every failure costs an attempt of the URL; without one left nothing is fetched,
though a stored bitmap is still found.
-/
namespace MessageCard

/-- Why there is no bitmap. -/
inductive ImageError where
  | notFound (url : String)
  | transport (reason : String)
  | decode
  /-- The URL leads out of the directory of the images. -/
  | outsideBase (url : String)
  | exhausted (url : String)
  deriving DecidableEq

def ImageError.message : ImageError → String
  | .notFound url => "image not found: " ++ url
  | .transport reason => "image transport error: " ++ reason
  | .decode => "image decode error"
  | .outsideBase url => "image path leaves the image directory: " ++ url
  | .exhausted url => "retry limit reached for image " ++ url

/-- Where images are fetched as bytes `β`, with states `τ`. A fetch that has no answer yet is asked
for it again. -/
structure ImageSourceOf (β τ : Type) where
  fetch : String → τ → Option (Except ImageError β) × τ

/-- A source of images that are decoded here. -/
abbrev ImageSource (τ : Type) := ImageSourceOf EncodedImage τ

/-- What is stored, known and counted about images. -/
structure ImageLoader where
  store : BitmapStore
  sizes : ImageSizes
  attempts : Attempts
  /-- The space of the store that is used. -/
  space : Option String

/-- The bitmap that a fetch brings. -/
def readImage {β : Type} [ImageCodec β] (answer : Except ImageError β) :
    Except ImageError Bitmap :=
  match answer with
  | .error e => .error e
  | .ok image => match Bitmap.decode? image with
    | some b => .ok b
    | none => .error .decode

namespace ImageLoader

def ofLimit (limit : Nat) (space : Option String) : ImageLoader :=
  ⟨.empty, .empty, .ofLimit limit, space⟩

/-- The name that a bitmap is stored under. -/
def nameOf (url : String) (key : Option String) : String := Bitmap.fileName url key true

/-- The stored bitmap of a URL. -/
def stored? (l : ImageLoader) (url : String) (key : Option String) : Option Bitmap :=
  l.store.find? l.space (nameOf url key)

/-- A bitmap is stored. -/
def keep (l : ImageLoader) (url : String) (key : Option String) (b : Bitmap) : ImageLoader :=
  { l with
    store := l.store.insert l.space (nameOf url key) b
    sizes := l.sizes.insert url b.size }

variable {β τ : Type} [ImageCodec β]

/-- What a fetch is worth; a failure costs an attempt. -/
def receive (l : ImageLoader) (url : String) (key : Option String) (answer : Except ImageError β) :
    Except ImageError Bitmap × ImageLoader :=
  match readImage answer with
  | .ok b => (.ok b, l.keep url key b)
  | .error e => (.error e, { l with attempts := l.attempts.fail url })

/-- The bitmap of a URL from a source, or nothing while there is no answer. -/
def ask (source : ImageSourceOf β τ) (url : String) (key : Option String) (l : ImageLoader)
    (s : τ) : Option (Except ImageError Bitmap) × ImageLoader × τ :=
  match source.fetch url s with
  | (none, s) => (none, l, s)
  | (some answer, s) =>
    let (result, l) := l.receive url key answer
    (some result, l, s)

/-- The bitmap of a URL, from the store or from a source; nothing while the source has no answer. -/
def load (source : ImageSourceOf β τ) (url : String) (key : Option String) (l : ImageLoader)
    (s : τ) : Option (Except ImageError Bitmap) × ImageLoader × τ :=
  match l.stored? url key with
  | some b => (some (.ok b), { l with sizes := l.sizes.insert url b.size }, s)
  | none =>
    if l.attempts.allows url then ask source url key l s
    else (some (.error (.exhausted url)), l, s)

/-! ## Several bitmaps at once -/

/-- The loads of several URLs. They begin in order, and then each goes on whenever it can. -/
structure Batch where
  /-- The loads that have begun, with the results of those that have come to an end. -/
  begun : List (String × Option (Except ImageError Bitmap))
  /-- The URLs of the loads that have not begun. -/
  left : List String

/-- What happens next in a batch. -/
inductive Turn where
  /-- The next load begins. -/
  | next
  /-- The load at a place is woken. -/
  | wake (place : Nat)
  deriving DecidableEq

namespace Batch

/-- A batch with a loader and a source, one turn later. -/
def turn (source : ImageSourceOf β τ) (turn : Turn) (b : Batch) (l : ImageLoader) (s : τ) :
    Batch × ImageLoader × τ :=
  match turn with
  | .next => match b.left with
    | [] => (b, l, s)
    | url :: left =>
      let (result, l, s) := load source url none l s
      (⟨b.begun ++ [(url, result)], left⟩, l, s)
  | .wake place => match b.begun[place]? with
    | some (url, none) =>
      let (result, l, s) := ask source url none l s
      ({ b with begun := b.begun.set place (url, result) }, l, s)
    | _ => (b, l, s)

/-- A batch with a loader and a source after several turns. -/
def run (source : ImageSourceOf β τ) : List Turn → Batch → ImageLoader → τ →
    Batch × ImageLoader × τ
  | [], b, l, s => (b, l, s)
  | turn :: turns, b, l, s =>
    let (b, l, s) := b.turn source turn l s
    run source turns b l s

/-- Whether every load has come to its end. -/
def isDone (b : Batch) : Bool := b.left.isEmpty && b.begun.all (·.2.isSome)

end Batch

/-- The outcome of fetching several bitmaps ahead of time. -/
structure Prefetch where
  loaded : Nat
  /-- The URLs without a bitmap. -/
  failed : List String
  /-- Whether time ran out before every load had come to its end. -/
  timedOut : Bool
  deriving DecidableEq

/-- Whether there is a bitmap for every URL. -/
def Prefetch.isComplete (p : Prefetch) : Bool := !p.timedOut && p.failed.isEmpty

/-- Whether a load has failed. -/
def isFailure : Option (Except ImageError Bitmap) → Bool
  | some (.error _) => true
  | _ => false

/-- The outcome of a batch when it is done or time has run out. Without its end all URLs count as
failed. -/
def Prefetch.ofBatch (urls : List String) (b : Batch) : Prefetch :=
  if b.isDone then
    ⟨b.begun.countP (!isFailure ·.2), (b.begun.filter (isFailure ·.2)).map (·.1), false⟩
  else ⟨0, urls, true⟩

/-- The bitmaps of several URLs are fetched ahead of time, in the turns that there is time for. -/
def prefetchWithin (turns : List Turn) (source : ImageSourceOf β τ) (urls : List String)
    (l : ImageLoader) (s : τ) : Prefetch × ImageLoader × τ :=
  let (b, l, s) := Batch.run source turns ⟨[], urls⟩ l s
  (.ofBatch urls b, l, s)

/-- The bitmaps of several URLs are fetched ahead of time, without a wait for any answer. -/
def prefetch (source : ImageSourceOf β τ) (urls : List String) (l : ImageLoader) (s : τ) :
    Prefetch × ImageLoader × τ :=
  prefetchWithin (urls.map fun _ => .next) source urls l s

end ImageLoader
end MessageCard
