import MessageCard.Card.Images

/-!
# Delivering a bitmap

A bitmap can be put into a card in place. The layout is then taken out of the card, worked on, and
put back at the end, whatever came of it; for a bitmap that belongs on a page, the same is done to
the page within the work on the card around it. A fault of the system of constraints ends the
delivery, and what it leaves behind is not described.
-/
namespace MessageCard

/-- A card at work on a bitmap. Its layout lies beside it. -/
structure Workbench (σ : Type) where
  card : Card σ
  live : LiveLayout σ
  sizes : ImageSizes

/-- A card after a bitmap was brought to it. -/
structure ImageOutcome (σ : Type) where
  card : Card σ
  sizes : ImageSizes
  /-- Nothing if the bitmap was not taken, and otherwise the node whose size may have changed. -/
  taken : Option (Option Nat)

/-- What the host of a card gets for a bitmap. -/
structure ImageReply (σ : Type) where
  card : Card σ
  sizes : ImageSizes
  /-- The node that the host is told about. -/
  told : Option Nat
  answer : Bool

/-- The host is told about a node that may have been resized, and the answer is whether it was. -/
def ImageOutcome.reply {σ : Type} (o : ImageOutcome σ) : ImageReply σ :=
  ⟨o.card, o.sizes, o.taken.join, o.taken.join.isSome⟩

namespace Workbench

variable {σ : Type}

/-- A card with its layout taken out. -/
def ofCard (c : Card σ) (live : LiveLayout σ) (sizes : ImageSizes) : Workbench σ :=
  ⟨c.cleared, live, sizes⟩

/-- The card with its layout put back. -/
def finish (w : Workbench σ) (taken : Option (Option Nat)) : ImageOutcome σ :=
  ⟨{ w.card with live := some w.live }, w.sizes, taken⟩

/-- The node with a number, unless it is hidden. -/
def shownNode? (w : Workbench σ) (id : Nat) : Option OutlineNode :=
  (w.live.root.nodes.find? (·.id = id)).filter (!·.hidden)

def board (w : Workbench σ) : Board σ := w.live.measured.board

def withBoard (w : Workbench σ) (board : Board σ) : Workbench σ :=
  { w with live.measured.board := board }

variable [RelationSolver σ]

/-- The constraints of an owner are removed. -/
def disown (w : Workbench σ) (o : Owner) : Except SystemError (Workbench σ) := do
  return w.withBoard (← w.board.disown o)

/-- Constraints of an owner are added. -/
def own (w : Workbench σ) (o : Owner) (cs : List Constraint) : Workbench σ :=
  w.withBoard (cs.foldl (fun b c => b.own o c) w.board)

/-- The constraints of an owner are replaced. -/
def replace (w : Workbench σ) (o : Owner) (cs : List Constraint) :
    Except SystemError (Workbench σ) := do
  return (← w.disown o).own o cs

/-- A carousel gets another height, unless its own is fixed. -/
def resizeCarousel (w : Workbench σ) (n : OutlineNode) (height : Binary64) :
    Except SystemError (Workbench σ) :=
  if n.view.height.isFixed then .ok w
  else w.replace (.carousel n.id) [Rules.carouselHeight n.id height]

/-- The layout settles again. -/
def settle (w : Workbench σ) : Except SystemError (Workbench σ) := do
  let live ← MessageCard.settle w.card.settings w.card.strip? w.live.root w.live.images
    w.live.measured
  return { w with live }

/-- A bitmap is put into a slot of the card itself. -/
def putHere (w : Workbench σ) (node : Nat) (url : String) (bitmap : Bitmap) :
    Except SystemError (Workbench σ × Option (Option Nat)) := do
  let some n := w.shownNode? node | return (w, none)
  let .image i := n.slot | return (w, none)
  if i.url ≠ url then return (w, none)
  let scale := w.card.settings.displayScale
  let w ← w.disown (.image node)
  let w := { w with sizes := w.sizes.insert url bitmap.size }
  let w := w.own (.image node) (Rules.image node n.view i w.sizes scale)
  let w := { w with
    live.images := w.live.images.insert node ⟨n.view.fit scale bitmap, bitmap.size⟩ }
  let w ← w.settle
  return (w, some (if Card.isResizedBy n.view i then some node else none))

/-- A bitmap is brought to a page of a carousel. The page is put back before it is known whether it
took the bitmap. -/
def putOnPage (w : Workbench σ) (carousel page : Nat)
    (deliver : Card σ → ImageSizes → Except SystemError (ImageOutcome σ)) :
    Except SystemError (Workbench σ × Option (Option Nat)) := do
  let some n := w.shownNode? carousel | return (w, none)
  let .carousel spacing _ := n.slot | return (w, none)
  let some state := w.card.carousel? n.path | return (w, none)
  let some inner := state.pages[page]? | return (w, none)
  let delivery ← deliver inner w.sizes
  let pages := state.pages.set page delivery.card
  let carousels := w.card.carousels.put ⟨w.card.identity, n.path⟩ { state with pages }
  let w := { w with card.carousels := carousels, sizes := delivery.sizes }
  let some resized := delivery.taken | return (w, none)
  let w ← w.resizeCarousel n (Card.pagesExtent spacing pages).height
  let w ← w.settle
  return (w, some (resized.map fun _ => carousel))

end Workbench

namespace Card

variable {σ : Type}

/-- Work on a card's layout, which is put back whatever came of it. A card that shows nothing takes
nothing. -/
def atWorkbench (c : Card σ) (sizes : ImageSizes)
    (work : Workbench σ → Except SystemError (Workbench σ × Option (Option Nat))) :
    Except SystemError (ImageOutcome σ) :=
  match c.live with
  | none => .ok ⟨c, sizes, none⟩
  | some live => (work (.ofCard c live sizes)).map fun (w, taken) => w.finish taken

variable [RelationSolver σ]

/-- A bitmap is brought to the slot at the end of a way. -/
def deliverAt (node : Nat) (url : String) (bitmap : Bitmap) :
    List (Nat × Nat) → Card σ → ImageSizes → Except SystemError (ImageOutcome σ)
  | [], c, sizes => c.atWorkbench sizes (·.putHere node url bitmap)
  | (carousel, page) :: hops, c, sizes =>
    c.atWorkbench sizes (·.putOnPage carousel page (deliverAt node url bitmap hops))

/-- A bitmap that was requested for a message is brought to its slot. -/
def deliver (sizes : ImageSizes) (identity : CardIdentity) (route : ImageRoute) (url : String)
    (bitmap : Bitmap) (c : Card σ) : Except SystemError (ImageReply σ) :=
  if identity = c.identity then
    (deliverAt route.node url bitmap route.hops c sizes).map ImageOutcome.reply
  else .ok ⟨c, sizes, none, false⟩

end Card
end MessageCard
