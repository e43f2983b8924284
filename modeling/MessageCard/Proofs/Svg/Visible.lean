import MessageCard.Proofs.Svg.Drawing

/-!
# What a drawing shows of hidden nodes

Of a hidden node a drawing shows the outline of its frame, if outlines are drawn at all. So a layout
is drawn like what is visible of it: hidden nodes are left out or, where outlines are drawn, stand
with their bare frames, and nothing of what they show, of their look or of the nodes below them
counts. This goes for the pages of carousels too.
-/
namespace MessageCard.Svg

/-- All that is left of a hidden node. -/
def husk (frame : Rect) : LayoutNode :=
  ⟨0, "", .root, frame, frame, View.plain.nodeStyle, none, true, []⟩

mutual

/-- What is visible of a node, with or without outlines. -/
def visibleNode (outlines : Bool) : LayoutNode → LayoutNode
  | ⟨id, path, content, frame, inner, style, action, hidden, children⟩ =>
    if hidden then husk frame
    else ⟨id, path, visibleContent outlines content, frame, inner, style, action, false,
      visibleNodes outlines children⟩

/-- What is visible of what a node shows. -/
def visibleContent (outlines : Bool) :
    ContentOf (LayoutOf LayoutNode) → ContentOf (LayoutOf LayoutNode)
  | .root => .root
  | .box direction => .box direction
  | .text t => .text t
  | .image image => .image image
  | .carousel spacing scroll pages => .carousel spacing scroll (visiblePages outlines pages)

/-- What is visible of the pages of a carousel. -/
def visiblePages (outlines : Bool) :
    List (PageOf (LayoutOf LayoutNode)) → List (PageOf (LayoutOf LayoutNode))
  | [] => []
  | ⟨offset, none⟩ :: rest => ⟨offset, none⟩ :: visiblePages outlines rest
  | ⟨offset, some ⟨width, height, root⟩⟩ :: rest =>
    ⟨offset, some ⟨width, height, visibleNode outlines root⟩⟩ :: visiblePages outlines rest

/-- What is visible of nodes with one parent: without outlines the hidden ones are left out. -/
def visibleNodes (outlines : Bool) : List LayoutNode → List LayoutNode
  | [] => []
  | n :: rest =>
    (if n.hidden && !outlines then [] else [visibleNode outlines n]) ++ visibleNodes outlines rest

end

/-- What is visible of a layout. -/
def visible (outlines : Bool) (tree : LayoutTree) : LayoutTree :=
  ⟨tree.width, tree.height, visibleNode outlines tree.root⟩

theorem visibleNode_of_hidden (outlines : Bool) {n : LayoutNode} (h : n.hidden = true) :
    visibleNode outlines n = husk n.frame := by
  obtain ⟨id, path, content, frame, inner, style, action, hidden, children⟩ := n
  rw [visibleNode, if_pos h]

theorem visibleNode_of_shown (outlines : Bool) {n : LayoutNode} (h : n.hidden = false) :
    visibleNode outlines n = { n with
      content := visibleContent outlines n.content
      children := visibleNodes outlines n.children } := by
  obtain ⟨id, path, content, frame, inner, style, action, hidden, children⟩ := n
  simp only at h
  rw [visibleNode, if_neg (by simp [h]), h]

theorem kind_visibleContent (outlines : Bool) (content : ContentOf LayoutTree) :
    Ink.kind (visibleContent outlines content) = Ink.kind content := by
  cases content <;> simp [visibleContent, Ink.kind]

/-- A hidden node is drawn as the outline of its frame, and as nothing where there are none. -/
theorem outline_of_hidden (i : Ink) {n : LayoutNode} (h : n.hidden = true) :
    i.outline n = i.outline (husk n.frame) := by
  rw [Ink.outline, Ink.outline, h]
  rfl

theorem outline_eq_nil (i : Ink) (h : i.settings.outlines = false) (n : LayoutNode) :
    i.outline n = [] := by
  rw [Ink.outline, h]
  rfl

variable (i : Ink)

mutual

/-- A node is drawn like what is visible of it. -/
theorem drawNode_visible : ∀ (n : LayoutNode) (defs : List Definition),
    drawNode i (visibleNode i.settings.outlines n) defs = drawNode i n defs
  | ⟨id, path, content, frame, inner, style, action, hidden, children⟩, defs => by
    cases hidden with
    | true =>
      rw [visibleNode_of_hidden _ rfl, drawNode_of_hidden i rfl, drawNode_of_hidden i rfl,
        ← outline_of_hidden i rfl]
    | false =>
      rw [visibleNode_of_shown _ rfl, drawNode_of_shown i rfl, drawNode_of_shown i rfl]
      have hgroup : ∀ n : LayoutNode, i.groupAttributes { n with
          content := visibleContent i.settings.outlines n.content
          children := visibleNodes i.settings.outlines n.children } = i.groupAttributes n :=
        fun n => by rw [Ink.groupAttributes, Ink.groupAttributes, kind_visibleContent]
      rw [hgroup]
      simp only [drawContent_visible inner style.radius content, drawNodes_visible children]
      rfl

/-- What a node shows is drawn like what is visible of it. -/
theorem drawContent_visible (inner : Rect) (radius : Binary64) :
    ∀ (content : ContentOf (LayoutOf LayoutNode)) (defs : List Definition),
      drawContent i inner radius (visibleContent i.settings.outlines content) defs =
        drawContent i inner radius content defs
  | .root, defs => by rw [visibleContent]
  | .box _, defs => by rw [visibleContent]
  | .text t, defs => by rw [visibleContent]
  | .image image, defs => by rw [visibleContent]
  | .carousel spacing scroll pages, defs => by
    rw [visibleContent, drawContent_carousel, drawContent_carousel]
    simp only [drawPages_visible inner scroll pages]

/-- Pages are drawn like what is visible of them. -/
theorem drawPages_visible (inner : Rect) (scroll : Binary64) :
    ∀ (pages : List (PageOf (LayoutOf LayoutNode))) (defs : List Definition),
      drawPages i inner scroll (visiblePages i.settings.outlines pages) defs =
        drawPages i inner scroll pages defs
  | [], defs => by rw [visiblePages]
  | ⟨offset, none⟩ :: rest, defs => by
    rw [visiblePages, drawPages_of_none, drawPages_of_none]
    exact drawPages_visible inner scroll rest defs
  | ⟨offset, some ⟨width, height, root⟩⟩ :: rest, defs => by
    rw [visiblePages]
    by_cases hsight : IsInSight inner scroll offset width
    · rw [drawPages_of_inSight i ⟨width, height, visibleNode _ root⟩ hsight,
        drawPages_of_inSight i ⟨width, height, root⟩ hsight]
      simp only [drawNode_visible root, drawPages_visible inner scroll rest]
    · rw [drawPages_of_not_inSight i ⟨width, height, visibleNode _ root⟩ hsight,
        drawPages_of_not_inSight i ⟨width, height, root⟩ hsight]
      exact drawPages_visible inner scroll rest defs

/-- Nodes with one parent are drawn like what is visible of them. -/
theorem drawNodes_visible : ∀ (ns : List LayoutNode) (defs : List Definition),
    drawNodes i (visibleNodes i.settings.outlines ns) defs = drawNodes i ns defs
  | [], defs => by rw [visibleNodes]
  | n :: rest, defs => by
    rw [visibleNodes, drawNodes_cons]
    split
    case isTrue h =>
      -- Without outlines a hidden node adds no element and no definition.
      obtain ⟨hhidden, houtlines⟩ : n.hidden = true ∧ i.settings.outlines = false := by
        simpa using h
      rw [drawNode_of_hidden i hhidden, outline_eq_nil i houtlines]
      simp only [List.nil_append, drawNodes_visible rest]
    case isFalse =>
      simp only [List.singleton_append, drawNodes_cons, drawNode_visible n, drawNodes_visible rest]

end

/-- A layout is drawn like what is visible of it. -/
theorem draw_visible (s : SvgSettings) (t : Theme) (a : Appearance) (tree : LayoutTree) :
    draw s t a (visible s.outlines tree) = draw s t a tree := by
  let ink : Ink := ⟨s, t.color "text-default" a, t.color "downloading-background" a⟩
  have hroot := drawNode_visible ink tree.root []
  unfold draw visible
  simp only [ink] at hroot
  simp only [hroot]

end MessageCard.Svg
