import MessageCard.Proofs.Layout.Drawing

/-!
# Layouts without what is carried over

A layout shows three things that can be older than itself: bitmaps, the sizes in which they arrived,
and scroll offsets. The bare layout is what remains without them, on the card itself and on all
pages of carousels. A bare layout is a matter of the solution and of the bare pages alone, whatever
bitmaps there are and however far carousels are scrolled.
-/
namespace MessageCard

mutual

/-- A node and all below it, without what is carried over. -/
def LayoutNode.bare : LayoutNode → LayoutNode
  | ⟨id, path, content, frame, inner, style, action, hidden, children⟩ =>
    ⟨id, path, bareContent content, frame, inner, style, action, hidden, bareNodes children⟩

/-- What a node shows, without what is carried over. -/
def bareContent : ContentOf (LayoutOf LayoutNode) → ContentOf (LayoutOf LayoutNode)
  | .root => .root
  | .box direction => .box direction
  | .text t => .text t
  | .image i => .image { i with loadedSize := none, bitmap := none }
  | .carousel spacing _ pages => .carousel spacing 0 (barePages pages)

/-- The pages of a carousel, each with its bare layout. -/
def barePages : List (PageOf (LayoutOf LayoutNode)) → List (PageOf (LayoutOf LayoutNode))
  | [] => []
  | ⟨offset, none⟩ :: rest => ⟨offset, none⟩ :: barePages rest
  | ⟨offset, some tree⟩ :: rest => ⟨offset, some tree.bare⟩ :: barePages rest

/-- A layout without what is carried over. -/
def LayoutOf.bare : LayoutOf LayoutNode → LayoutOf LayoutNode
  | ⟨width, height, root⟩ => ⟨width, height, root.bare⟩

/-- Nodes with one parent, without what is carried over. -/
def bareNodes : List LayoutNode → List LayoutNode
  | [] => []
  | n :: rest => n.bare :: bareNodes rest

end

@[simp] theorem LayoutOf.width_bare (t : LayoutTree) : t.bare.width = t.width := by
  cases t
  rfl

@[simp] theorem LayoutOf.height_bare (t : LayoutTree) : t.bare.height = t.height := by
  cases t
  rfl

theorem barePages_eq_map (pages : List (PageOf LayoutTree)) :
    barePages pages = pages.map fun p => ⟨p.offset, p.tree.map (·.bare)⟩ := by
  induction pages with
  | nil => rfl
  | cons p rest ih =>
    obtain ⟨offset, _ | tree⟩ := p
    · rw [barePages, ih]
      rfl
    · rw [barePages, ih]
      rfl

/-- The state of a strip without its scroll offset, with the bare layouts of its pages. -/
def StripState.bare (s : StripState) : StripState := ⟨0, s.pages.map (Option.map (·.bare))⟩

namespace Drawing

/-- Bare pages lie where the pages lie. -/
theorem barePages_pages (spacing : Binary64) (trees : List (Option LayoutTree)) :
    barePages (pages spacing trees) = pages spacing (trees.map (Option.map (·.bare))) := by
  have hwidth : ∀ t : Option LayoutTree,
      (t.map (·.bare)).elim 0 (·.width) = t.elim (0 : Binary64) (·.width) := by
    intro t
    cases t with
    | none => rfl
    | some tree => exact tree.width_bare
  have hwidths : (trees.map (Option.map (·.bare))).map (fun t => t.elim 0 (·.width)) =
      trees.map fun t => t.elim (0 : Binary64) (·.width) := by
    rw [List.map_map]
    exact List.map_congr_left fun t _ => hwidth t
  unfold pages
  dsimp only
  rw [hwidths, barePages_eq_map, List.map_zipWith, List.zipWith_map_right]

/-- Drawings that differ at most in what is carried over. -/
structure IsAlike (d e : Drawing) : Prop where
  solution : d.solution = e.solution
  measurer : d.measurer = e.measurer
  strips : ∀ path, (d.strip? path).map (·.bare) = (e.strip? path).map (·.bare)

variable {d e : Drawing}

/-- What a carousel shows is bare when its strip is. -/
theorem bareContent_strip (spacing : Binary64) (strip : Option StripState) :
    bareContent (match strip with
      | none => .carousel spacing 0 []
      | some strip => .carousel spacing strip.scroll (pages spacing strip.pages)) =
    match strip.map (·.bare) with
      | none => .carousel spacing 0 []
      | some strip => .carousel spacing strip.scroll (pages spacing strip.pages) := by
  cases strip with
  | none => simp [bareContent, barePages]
  | some strip => simp [bareContent, barePages_pages, StripState.bare]

/-- Drawings that are alike show the same in every slot, apart from what is carried over. -/
theorem IsAlike.bareContent_eq (h : d.IsAlike e) (n : OutlineNode) :
    bareContent (d.content n) = bareContent (e.content n) := by
  unfold content
  cases n.slot with
  | root => rfl
  | box stacking => rfl
  | text t => rw [h.solution, h.measurer]
  | image i => simp [bareContent]
  | carousel spacing extent =>
    have hstrip : (if n.hidden then none else d.strip? n.path).map (·.bare) =
        (if n.hidden then none else e.strip? n.path).map (·.bare) := by
      split
      · rfl
      · exact h.strips n.path
    exact (bareContent_strip _ _).trans (hstrip ▸ (bareContent_strip _ _).symm)

theorem IsAlike.frames_eq (h : d.IsAlike e) (n : OutlineNode) (origin : Point) :
    d.frames n origin = e.frames n origin :=
  frames_congr (fun i => by rw [h.solution]) n origin

mutual

/-- Drawings that are alike draw the same bare trees. -/
theorem IsAlike.bare_node (h : d.IsAlike e) : ∀ (n : OutlineNode) (origin : Point),
    (d.node origin n).bare = (e.node origin n).bare
  | ⟨id, path, view, hidden, loosened, slot, children⟩, origin => by
    have hcontent := h.bareContent_eq ⟨id, path, view, hidden, loosened, slot, children⟩
    have hframes := h.frames_eq ⟨id, path, view, hidden, loosened, slot, children⟩ origin
    simp only [node, LayoutNode.bare, hcontent, hframes]
    rw [IsAlike.bare_nodes h children]

theorem IsAlike.bare_nodes (h : d.IsAlike e) : ∀ (ns : List OutlineNode) (origin : Point),
    bareNodes (d.nodes origin ns) = bareNodes (e.nodes origin ns)
  | [], origin => rfl
  | n :: rest, origin => by
    rw [nodes, nodes, bareNodes, bareNodes, IsAlike.bare_node h n, IsAlike.bare_nodes h rest]

end

theorem IsAlike.bare_tree (h : d.IsAlike e) (root : OutlineNode) :
    (d.tree root).bare = (e.tree root).bare := by
  simp only [tree, LayoutOf.bare, frame_node, h.frames_eq, h.bare_node]

end Drawing

/-- A layout settles alike whatever bitmaps there are and however far carousels are scrolled. -/
theorem bare_settle {σ : Type} [RelationSolver σ] (s : LayoutSettings) {strip? strip?' : String →
    Option StripState} (hstrips : ∀ path, (strip? path).map (·.bare) = (strip?' path).map (·.bare))
    (root : OutlineNode) (images images' : Table Nat LoadedImage) (start : Measured σ) :
    (settle s strip? root images start).map (·.tree.bare) =
      (settle s strip?' root images' start).map (·.tree.bare) := by
  unfold settle
  cases settleHeights s.measurer root.nodes s.textPasses start with
  | error e => rfl
  | ok measured =>
    have halike : Drawing.IsAlike ⟨measured.board.solve.1, s.measurer, images, strip?⟩
        ⟨measured.board.solve.1, s.measurer, images', strip?'⟩ := ⟨rfl, rfl, hstrips⟩
    exact congrArg Except.ok (halike.bare_tree root)

end MessageCard
