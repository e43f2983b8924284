import MessageCard.Carousel
import MessageCard.Layout.Board
import MessageCard.Layout.Tree

/-!
# Settling a layout

How high a text is depends on how wide it gets, and how wide it gets is found by solving. So the
layout is solved, texts are measured at the widths found, and heights that were expected wrongly are
replaced, until nothing changes any more or the rounds allowed are used up. The tree of frames is
then read off the last solution.
-/
namespace MessageCard

/-- A difference in height up to this much is not worth another round. -/
def heightTolerance : Binary64 := 0.5

/-- A bitmap that has arrived in its slot. -/
structure LoadedImage where
  /-- The bitmap as it is drawn. -/
  bitmap : Bitmap
  /-- The size in which it arrived. -/
  size : PixelSize
  deriving DecidableEq

/-- The pages of a carousel as they are laid out, and how far it is scrolled. -/
structure StripState where
  scroll : Binary64
  pages : List (Option LayoutTree)

/-- The constraints of a layout, and the heights that they give to texts of flexible height. -/
structure Measured (σ : Type) where
  board : Board σ
  heights : Table Nat Binary64

/-- A layout that can still change. -/
structure LiveLayout (σ : Type) where
  measured : Measured σ
  root : OutlineNode
  images : Table Nat LoadedImage
  tree : LayoutTree

namespace Solution

/-- The value of a property as a double. -/
def length (s : Solution) (f : Frame) (p : Property) : Binary64 := .round (s.get (f.at p))

/-- A frame, kept to thousandths. -/
def rect (s : Solution) (f : Frame) : Rect :=
  let side (p : Property) := (s.length f p).toThousandths
  ⟨side .left, side .top, side .width, side .height⟩

end Solution

/-- The text of a node that is shown. -/
def OutlineNode.shownText? (n : OutlineNode) : Option TextSlot :=
  if n.hidden then none
  else match n.slot with
    | .text t => some t
    | _ => none

/-- The heights that the texts of an outline are expected to have, fixed ones aside. -/
def OutlineNode.expectedHeights (root : OutlineNode) : Table Nat Binary64 :=
  root.nodes.foldl (fun heights n =>
    match n.shownText? with
    | some t => if n.view.height.isFixed then heights else heights.insert n.id t.expectedHeight
    | none => heights) .empty

section Rounds

variable {σ : Type} [RelationSolver σ]

/-- The width into which a text is wrapped. -/
def wrapWidth (solution : Solution) (n : OutlineNode) : Binary64 :=
  solution.length (Frame.content n.id) .width + wrapTolerance

/-- One text is measured at the width found for it. The flag tells whether any height changed. -/
def remeasure (m : TextMeasurer) (solution : Solution) (s : Measured σ × Bool) (n : OutlineNode) :
    Except SystemError (Measured σ × Bool) :=
  match n.shownText?, s.1.heights.find? n.id with
  | some t, some before =>
    let height := (m.measure t.font (wrapWidth solution n) t.maxLines t.text.toList).height
    if heightTolerance < (height - before).abs then do
      let board ← s.1.board.follow (.replace (.text n.id) [Rules.textHeight n.id n.view height])
      return (⟨board, s.1.heights.insert n.id height⟩, true)
    else .ok s
  | _, _ => .ok s

/-- One round: the constraints are solved and every text is measured. -/
def measureRound (m : TextMeasurer) (nodes : List OutlineNode) (s : Measured σ) :
    Except SystemError (Measured σ × Bool) :=
  let (solution, board) := s.board.solve
  nodes.foldlM (remeasure m solution) ({ s with board }, false)

/-- Rounds until no height changes, a given number of them at most. -/
def settleHeights (m : TextMeasurer) (nodes : List OutlineNode) :
    Nat → Measured σ → Except SystemError (Measured σ)
  | 0, s => .ok s
  | rounds + 1, s => do
    let (next, changed) ← measureRound m nodes s
    if changed then settleHeights m nodes rounds next else return next

end Rounds

/-- What the frames and contents of a tree are read from. -/
structure Drawing where
  solution : Solution
  measurer : TextMeasurer
  images : Table Nat LoadedImage
  /-- The carousel at a path. -/
  strip? : String → Option StripState

namespace Drawing

/-- The pages of a strip, each where it starts. -/
def pages (spacing : Binary64) (trees : List (Option LayoutTree)) : List (PageOf LayoutTree) :=
  let widths := trees.map fun t => t.elim 0 (·.width)
  (Strip.offsets spacing widths).zipWith PageOf.mk trees

/-- What a node shows. -/
def content (d : Drawing) (n : OutlineNode) : ContentOf LayoutTree :=
  match n.slot with
  | .root => .root
  | .box s => .box s.direction
  | .text t =>
    let lines := if n.hidden then []
      else d.measurer.wrap t.font (wrapWidth d.solution n) t.maxLines t.text.toList
    .text ⟨t.text, lines, t.font.size, t.font.weight, t.color, t.align, t.maxLines, t.isButton⟩
  | .image i =>
    let loaded := d.images.find? n.id
    .image ⟨i.url, i.mode, i.tint, i.isButton, loaded.map (·.size), loaded.map (·.bitmap)⟩
  | .carousel spacing _ =>
    match if n.hidden then none else d.strip? n.path with
    | none => .carousel spacing 0 []
    | some strip => .carousel spacing strip.scroll (pages spacing strip.pages)

/-- The outer and the inner frame of a node. A hidden node has no extent and lies where its parent's
content begins. -/
def frames (d : Drawing) (n : OutlineNode) (origin : Point) : Rect × Rect :=
  if n.hidden then
    let point : Rect := ⟨origin.x, origin.y, 0, 0⟩
    (point, point)
  else (d.solution.rect (Frame.outer n.id), d.solution.rect (Frame.content n.id))

mutual

/-- The tree of a node whose parent's content begins at a point. -/
def node (d : Drawing) (origin : Point) : OutlineNode → LayoutNode
  | ⟨id, path, view, hidden, loosened, slot, children⟩ =>
    let n : OutlineNode := ⟨id, path, view, hidden, loosened, slot, children⟩
    let (frame, inner) := d.frames n origin
    ⟨id, path, d.content n, frame, inner, view.nodeStyle, view.action, hidden,
      nodes d ⟨inner.x, inner.y⟩ children⟩

/-- The trees of nodes with one parent. -/
def nodes (d : Drawing) (origin : Point) : List OutlineNode → List LayoutNode
  | [] => []
  | n :: rest => node d origin n :: nodes d origin rest

end

/-- The layout with a given root. -/
def tree (d : Drawing) (root : OutlineNode) : LayoutTree :=
  let root := d.node ⟨0, 0⟩ root
  ⟨root.frame.width, root.frame.height, root⟩

end Drawing

/-- The layout settled from given constraints. -/
def settle {σ : Type} [RelationSolver σ] (s : LayoutSettings)
    (strip? : String → Option StripState) (root : OutlineNode)
    (images : Table Nat LoadedImage) (start : Measured σ) : Except SystemError (LiveLayout σ) := do
  let measured ← settleHeights s.measurer root.nodes s.textPasses start
  let (solution, board) := measured.board.solve
  return ⟨{ measured with board }, root, images,
    Drawing.tree ⟨solution, s.measurer, images, strip?⟩ root⟩

end MessageCard
