import MessageCard.Bitmap.Sizing
import MessageCard.Card.Rendering
import MessageCard.StandIn

/-!
# Putting bitmaps into a card

A card asks for the bitmaps that its images still need, those on the pages of carousels included. A
bitmap that arrives finds its slot by the way that the request gave: from carousel to page, and
there to a node. It replaces the constraints of its slot, and the layout settles again around it, on
the page first and then on each card around the page.

A bitmap whose slot is not there, or shows another URL by now, changes nothing.
-/
namespace MessageCard

/-- The way to an image: through pages of carousels to a node. -/
structure ImageRoute where
  /-- The carousels on the way, outermost first, each with the number of a page. -/
  hops : List (Nat × Nat)
  node : Nat
  deriving DecidableEq

namespace ImageRoute

/-- The way to a node of the card itself. -/
def here (node : Nat) : ImageRoute := ⟨[], node⟩

/-- The way as it is seen from the card around a page. -/
def through (r : ImageRoute) (carousel page : Nat) : ImageRoute :=
  ⟨(carousel, page) :: r.hops, r.node⟩

end ImageRoute

/-- A bitmap that a card needs. -/
structure ImageRequest where
  identity : CardIdentity
  route : ImageRoute
  url : String
  deriving DecidableEq

/-- A card that took a bitmap. -/
structure Accepted (σ : Type) where
  card : Card σ
  sizes : ImageSizes
  /-- The node whose size may have changed by it. -/
  resized : Option Nat

/-- Whether the bitmap of an image is fetched, rather than drawn by the host. -/
def isFetched (url : String) : Bool := !StandIn.internalScheme.toList.isPrefixOf url.toList

theorem Table.sizeOf_lt_of_find? {κ α : Type} [DecidableEq κ] [SizeOf κ] [SizeOf α]
    {t : Table κ α} {key : κ} {value : α} (h : t.find? key = some value) :
    sizeOf value < sizeOf t := by
  obtain ⟨entries⟩ := t
  have step : ∀ es : List (κ × α), findIn key es = some value → sizeOf value < sizeOf es := by
    intro es
    induction es with
    | nil => intro h; simp [findIn] at h
    | cons e rest ih =>
      obtain ⟨k, v⟩ := e
      intro h
      simp only [findIn] at h
      split at h
      · cases h; simp; omega
      · have := ih h; simp; omega
  have := step entries h
  simp only [Table.mk.sizeOf_spec]
  omega

namespace Card

variable {σ : Type}

/-- The cards on a carousel's pages are parts of the card. -/
theorem sizeOf_page_lt (c : Card σ) (path : String) (s : CarouselState (Card σ))
    (h : c.carousel? path = some s) (page : Card σ) (hp : page ∈ s.pages) :
    sizeOf page < sizeOf c := by
  obtain ⟨settings, identity, ⟨previous, current, builds⟩, live⟩ := c
  obtain ⟨pages, scroll⟩ := s
  have h1 := Table.sizeOf_lt_of_find? (t := current) h
  have h2 := List.sizeOf_lt_of_mem hp
  simp only [CarouselState.mk.sizeOf_spec, Card.mk.sizeOf_spec, CarouselCache.mk.sizeOf_spec] at *
  omega

/-- The bitmaps that the card still needs, in the order of its nodes. -/
def requests (c : Card σ) : List ImageRequest :=
  match c.live with
  | none => []
  | some live => live.root.nodes.flatMap fun n =>
    if n.hidden then []
    else match n.slot with
      | .image i =>
        if isFetched i.url && !live.images.contains n.id then
          [⟨c.identity, .here n.id, i.url⟩]
        else []
      | .carousel _ _ =>
        match _ : c.carousel? n.path with
        | none => []
        | some s => s.pages.attach.zipIdx.flatMap fun (page, index) =>
          page.1.requests.map fun r => ⟨c.identity, r.route.through n.id index, r.url⟩
      | _ => []
termination_by sizeOf c
decreasing_by exact sizeOf_page_lt c n.path s ‹_› page.1 page.2

variable [RelationSolver σ]

/-- Whether the size of a slot may change when its bitmap arrives. -/
def isResizedBy (view : View) (i : ImageSlot) : Bool :=
  SizingPolicy.of view.width view.height i.mode = .ratio || i.pixels.isNone

/-- The card with a bitmap in one of its own slots. -/
def acceptHere (c : Card σ) (sizes : ImageSizes) (node : Nat) (url : String) (bitmap : Bitmap) :
    Option (Accepted σ) := do
  let live ← c.live
  let n ← c.shownNode? node
  match n.slot with
  | .image i =>
    if i.url = url then
      let sizes := sizes.insert url bitmap.size
      let scale := c.settings.displayScale
      let board ← (live.measured.board.follow
        (.replace (.image node) (Rules.image node n.view i sizes scale))).toOption
      let images := live.images.insert node ⟨n.view.fit scale bitmap, bitmap.size⟩
      let card ← (c.resettle live board images).toOption
      return ⟨card, sizes, if isResizedBy n.view i then some node else none⟩
    else none
  | _ => none

/-- The card after one of its pages took a bitmap. -/
def acceptPage (c : Card σ) (carousel page : Nat) (state : CarouselState (Card σ))
    (accepted : Accepted σ) : Option (Accepted σ) := do
  let live ← c.live
  let n ← c.shownNode? carousel
  match n.slot with
  | .carousel spacing _ =>
    let pages := state.pages.set page accepted.card
    let key : CarouselKey := ⟨c.identity, n.path⟩
    let c := { c with carousels := c.carousels.put key { state with pages } }
    let height := (pagesExtent spacing pages).height
    let board ← if n.view.height.isFixed then some live.measured.board
      else (live.measured.board.follow
        (.replace (.carousel carousel) [Rules.carouselHeight carousel height])).toOption
    let card ← (c.resettle live board live.images).toOption
    return ⟨card, accepted.sizes, accepted.resized.map fun _ => carousel⟩
  | _ => none

/-- The carousel of a node that is shown. -/
def shownCarousel? (c : Card σ) (node : Nat) : Option (CarouselState (Card σ)) := do
  let n ← c.shownNode? node
  match n.slot with
  | .carousel _ _ => c.carousel? n.path
  | _ => none

/-- The card with a bitmap in the slot at the end of a way. -/
def acceptAt (sizes : ImageSizes) (node : Nat) (url : String) (bitmap : Bitmap) :
    List (Nat × Nat) → Card σ → Option (Accepted σ)
  | [], c => c.acceptHere sizes node url bitmap
  | (carousel, page) :: hops, c => do
    let state ← c.shownCarousel? carousel
    let inner ← state.pages[page]?
    c.acceptPage carousel page state (← acceptAt sizes node url bitmap hops inner)

/-- The card with a bitmap that was requested for a message, if it still has a place for it. -/
def accept (sizes : ImageSizes) (identity : CardIdentity) (route : ImageRoute) (url : String)
    (bitmap : Bitmap) (c : Card σ) : Option (Accepted σ) :=
  if identity = c.identity then acceptAt sizes route.node url bitmap route.hops c else none

end Card
end MessageCard
