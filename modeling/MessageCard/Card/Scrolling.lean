import MessageCard.Card

/-!
# Scrolling a card's carousels

How far a carousel is scrolled is kept with its pages, and shown in the layout as well.
-/
namespace MessageCard

mutual

/-- The node with another scroll offset on the carousel with a number. -/
def LayoutNode.withScroll (carousel : Nat) (scroll : Binary64) : LayoutNode → LayoutNode
  | ⟨id, path, content, frame, inner, style, action, hidden, children⟩ =>
    let content := match content with
      | .carousel spacing before pages =>
        if id = carousel then .carousel spacing scroll pages else .carousel spacing before pages
      | other => other
    ⟨id, path, content, frame, inner, style, action, hidden,
      nodesWithScroll carousel scroll children⟩

/-- Nodes with another scroll offset on the carousel with a number. -/
def nodesWithScroll (carousel : Nat) (scroll : Binary64) : List LayoutNode → List LayoutNode
  | [] => []
  | n :: rest => n.withScroll carousel scroll :: nodesWithScroll carousel scroll rest

end

namespace Card

variable {σ : Type}

/-- The carousel of a node, with its key. -/
def carouselAt? (c : Card σ) (node : Nat) : Option (CarouselKey × CarouselState (Card σ)) := do
  let n ← c.node? node
  match n.slot with
  | .carousel _ _ => return (⟨c.identity, n.path⟩, ← c.carousel? n.path)
  | _ => none

/-- How far the carousel of a node is scrolled. -/
def scroll? (c : Card σ) (node : Nat) : Option Binary64 := (c.carouselAt? node).map (·.2.scroll)

/-- The card with the carousel of a node scrolled to an offset, to zero at the least. -/
def scrollTo? (c : Card σ) (node : Nat) (offset : Binary64) : Option (Card σ) := do
  let (key, state) ← c.carouselAt? node
  let scroll := max offset 0
  let shown (l : LiveLayout σ) : LiveLayout σ :=
    { l with tree := { l.tree with root := l.tree.root.withScroll node scroll } }
  return { c with
    carousels := c.carousels.put key { state with scroll }
    live := c.live.map shown }

end Card
end MessageCard
