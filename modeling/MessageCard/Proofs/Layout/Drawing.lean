import Mathlib.Data.List.Forall2
import MessageCard.Card.Scrolling
import MessageCard.Proofs.Layout.Outline

/-!
# What a drawn tree shows

A tree has the nodes of the outline it was drawn from, one for one and in the same order, and each
shows what its slot holds. Where its frames lie is a matter of the solution alone. Scrolling a
carousel changes the scroll offset that its node shows and no frame.
-/
namespace MessageCard

/-! ## Lists matched element by element -/

/-- Both sides of a relation between lists have counterparts. -/
theorem exists_of_forall₂ {α β : Type} {R : α → β → Prop} {ts : List α} {ks : List β}
    (h : List.Forall₂ R ts ks) :
    (∀ t ∈ ts, ∃ k ∈ ks, R t k) ∧ ∀ k ∈ ks, ∃ t ∈ ts, R t k := by
  induction h with
  | nil => exact ⟨fun t ht => absurd ht List.not_mem_nil, fun k hk => absurd hk List.not_mem_nil⟩
  | cons hr _ ih =>
    refine ⟨fun t ht => ?_, fun k hk => ?_⟩
    · rcases List.mem_cons.mp ht with rfl | ht
      · exact ⟨_, List.mem_cons_self, hr⟩
      · obtain ⟨k, hk, hr⟩ := ih.1 t ht
        exact ⟨k, List.mem_cons_of_mem _ hk, hr⟩
    · rcases List.mem_cons.mp hk with rfl | hk
      · exact ⟨_, List.mem_cons_self, hr⟩
      · obtain ⟨t, ht, hr⟩ := ih.2 k hk
        exact ⟨t, List.mem_cons_of_mem _ ht, hr⟩

/-- Relations between lists of equal length compose, where they do item by item. -/
theorem forall₂_trans {α β γ : Type} {R : α → β → Prop} {S : β → γ → Prop} {T : α → γ → Prop}
    {us : List α} {ts : List β} {ks : List γ} (hR : List.Forall₂ R us ts)
    (hS : List.Forall₂ S ts ks) (hT : ∀ u t k, k ∈ ks → R u t → S t k → T u k) :
    List.Forall₂ T us ks := by
  induction hR generalizing ks with
  | nil =>
    cases hS
    exact .nil
  | cons hr _ ih =>
    cases hS with
    | cons hs hS =>
      refine .cons (hT _ _ _ List.mem_cons_self hr hs) (ih hS fun u t k hk => ?_)
      exact hT u t k (List.mem_cons_of_mem _ hk)

/-- Matched elements that agree in something do so in order. -/
theorem map_eq_map_of_forall₂ {α β γ : Type} {R : α → β → Prop} {f : α → γ} {g : β → γ}
    {ts : List α} {ks : List β} (h : List.Forall₂ R ts ks) (hfg : ∀ {t k}, R t k → f t = g k) :
    ts.map f = ks.map g := by
  induction h with
  | nil => rfl
  | cons hr _ ih => rw [List.map_cons, List.map_cons, hfg hr, ih]

/-! ## Trees and outlines -/

/-- The frames of a node and of all below it. -/
def LayoutNode.placements (n : LayoutNode) : List (Nat × Rect × Rect) :=
  n.nodes.map fun k => (k.id, k.frame, k.inner)

/-- A node has no extent, lines or pages. -/
structure LayoutNode.IsBlank (t : LayoutNode) : Prop where
  width_eq : t.frame.width = 0
  height_eq : t.frame.height = 0
  inner_eq : t.inner = t.frame
  lines : ∀ text, t.content = .text text → text.lines = []
  pages : ∀ spacing scroll pages, t.content = .carousel spacing scroll pages → pages = []

namespace Drawing

variable {d e : Drawing}

/-- A node of a tree shows a node of an outline. -/
structure Draws (d : Drawing) (t : LayoutNode) (n : OutlineNode) : Prop where
  id_eq : t.id = n.id
  path_eq : t.path = n.path
  hidden_eq : t.hidden = n.hidden
  content_eq : t.content = d.content n
  style_eq : t.style = n.view.nodeStyle
  action_eq : t.action = n.view.action
  frames_eq : ∃ origin, (t.frame, t.inner) = d.frames n origin

/-- Nothing is shown at the node of a hidden one. -/
theorem Draws.isBlank {t : LayoutNode} {n : OutlineNode} (h : d.Draws t n) (hn : n.hidden = true) :
    t.IsBlank := by
  obtain ⟨origin, hframes⟩ := h.frames_eq
  rw [frames, if_pos hn] at hframes
  obtain ⟨hframe, hinner⟩ := Prod.mk.inj hframes
  refine ⟨by rw [hframe], by rw [hframe], hinner.trans hframe.symm, fun text htext => ?_,
    fun spacing scroll pages hcarousel => ?_⟩
  · rw [h.content_eq, content] at htext
    cases hslot : n.slot with
    | text slot =>
      simp only [hslot, hn, if_true] at htext
      cases htext
      rfl
    | carousel spacing extent => simp [hslot, hn] at htext
    | _ => simp [hslot] at htext
  · rw [h.content_eq, content] at hcarousel
    cases hslot : n.slot with
    | carousel spacing' extent =>
      simp only [hslot, hn, if_true] at hcarousel
      cases hcarousel
      rfl
    | _ => simp [hslot] at hcarousel

mutual

/-- The nodes drawn show the nodes of the outline, one for one. -/
theorem forall₂_node (d : Drawing) : ∀ (n : OutlineNode) (origin : Point),
    List.Forall₂ d.Draws (d.node origin n).nodes n.nodes
  | ⟨id, path, view, hidden, loosened, slot, children⟩, origin => by
    rw [node, LayoutNode.nodes, OutlineNode.nodes]
    exact .cons ⟨rfl, rfl, rfl, rfl, rfl, rfl, origin, rfl⟩ (forall₂_nodes d children _)

theorem forall₂_nodes (d : Drawing) : ∀ (ns : List OutlineNode) (origin : Point),
    List.Forall₂ d.Draws (nodesOf (d.nodes origin ns)) (outlineNodes ns)
  | [], origin => .nil
  | n :: rest, origin => by
    rw [nodes, nodesOf, outlineNodes]
    exact List.rel_append (forall₂_node d n origin) (forall₂_nodes d rest origin)

end

theorem forall₂_tree (d : Drawing) (root : OutlineNode) :
    List.Forall₂ d.Draws (d.tree root).nodes root.nodes :=
  d.forall₂_node root ⟨0, 0⟩

/-- The pages of a strip carry its trees, one for one. -/
theorem map_tree_pages (spacing : Binary64) (trees : List (Option LayoutTree)) :
    (pages spacing trees).map (·.tree) = trees := by
  have hfrom : ∀ (ts : List (Option LayoutTree)) (start : Binary64),
      ((Strip.offsetsFrom spacing start (ts.map fun t => t.elim 0 (·.width))).zipWith PageOf.mk
        ts).map (·.tree) = ts := by
    intro ts
    induction ts with
    | nil => exact fun _ => rfl
    | cons t ts ih =>
      intro start
      rw [List.map_cons, Strip.offsetsFrom, List.zipWith_cons_cons, List.map_cons, ih]
  exact hfrom trees 0

/-! ## Frames -/

/-- Solutions with the same values for the unknowns place frames alike. -/
theorem rect_congr {s t : Solution} (h : ∀ i, s.unknown i = t.unknown i) (f : Frame) :
    s.rect f = t.rect f := by
  have hget : ∀ v, s.get v = t.get v := fun v => by simp only [Solution.get, h]
  simp only [Solution.rect, Solution.length, hget]

theorem frames_congr (h : ∀ i, d.solution.unknown i = e.solution.unknown i) (n : OutlineNode)
    (origin : Point) : d.frames n origin = e.frames n origin := by
  simp only [frames, rect_congr h]

mutual

/-- Frames are a matter of the solution alone. -/
theorem placements_node (h : ∀ i, d.solution.unknown i = e.solution.unknown i) :
    ∀ (n : OutlineNode) (origin : Point),
      (d.node origin n).placements = (e.node origin n).placements
  | ⟨id, path, view, hidden, loosened, slot, children⟩, origin => by
    have hframes := frames_congr h ⟨id, path, view, hidden, loosened, slot, children⟩ origin
    simp only [LayoutNode.placements, node, LayoutNode.nodes, List.map_cons, hframes]
    rw [placements_nodes h children]

theorem placements_nodes (h : ∀ i, d.solution.unknown i = e.solution.unknown i) :
    ∀ (ns : List OutlineNode) (origin : Point),
      (nodesOf (d.nodes origin ns)).map (fun k => (k.id, k.frame, k.inner)) =
        (nodesOf (e.nodes origin ns)).map (fun k => (k.id, k.frame, k.inner))
  | [], origin => rfl
  | n :: rest, origin => by
    rw [nodes, nodes, nodesOf, nodesOf, List.map_append, List.map_append,
      placements_nodes h rest]
    exact congrArg (· ++ _) (placements_node h n origin)

end

theorem frame_node (d : Drawing) (n : OutlineNode) (origin : Point) :
    (d.node origin n).frame = (d.frames n origin).1 := by
  cases n
  rw [node]

end Drawing

/-- The size of a layout and the frames of all its nodes. -/
def LayoutOf.placements (t : LayoutTree) : Binary64 × Binary64 × List (Nat × Rect × Rect) :=
  (t.width, t.height, t.root.placements)

theorem Drawing.placements_tree {d e : Drawing}
    (h : ∀ i, d.solution.unknown i = e.solution.unknown i) (root : OutlineNode) :
    (d.tree root).placements = (e.tree root).placements := by
  simp only [Drawing.tree, LayoutOf.placements, frame_node, frames_congr h, placements_node h]

/-! ## Scrolling -/

/-- What a node shows after the carousel with a number was scrolled. -/
def LayoutNode.scrolled (carousel : Nat) (scroll : Binary64) (t : LayoutNode) :
    ContentOf LayoutTree :=
  match t.content with
  | .carousel spacing before pages =>
    if t.id = carousel then .carousel spacing scroll pages else .carousel spacing before pages
  | other => other

/-- A node after the carousel with a number was scrolled. -/
structure LayoutNode.IsScrolled (carousel : Nat) (scroll : Binary64) (t s : LayoutNode) : Prop where
  id_eq : t.id = s.id
  path_eq : t.path = s.path
  hidden_eq : t.hidden = s.hidden
  frame_eq : t.frame = s.frame
  inner_eq : t.inner = s.inner
  content_eq : t.content = s.scrolled carousel scroll

/-- Scrolling shows nothing at a node that was blank. -/
theorem LayoutNode.IsScrolled.isBlank {carousel : Nat} {scroll : Binary64} {t s : LayoutNode}
    (h : LayoutNode.IsScrolled carousel scroll t s) (hs : s.IsBlank) : t.IsBlank := by
  refine ⟨by rw [h.frame_eq, hs.width_eq], by rw [h.frame_eq, hs.height_eq],
    by rw [h.inner_eq, h.frame_eq, hs.inner_eq], fun text htext => ?_,
    fun spacing offset pages hcarousel => ?_⟩
  · rw [h.content_eq, LayoutNode.scrolled] at htext
    split at htext
    · split at htext <;> cases htext
    · exact hs.lines text htext
  · rw [h.content_eq, LayoutNode.scrolled] at hcarousel
    split at hcarousel
    case h_1 before shown hbefore =>
      have hpages := hs.pages _ _ _ hbefore
      split at hcarousel <;> cases hcarousel <;> exact hpages
    case h_2 => exact hs.pages _ _ _ hcarousel

theorem withScroll_eq (carousel : Nat) (scroll : Binary64) (n : LayoutNode) :
    n.withScroll carousel scroll = { n with
      content := n.scrolled carousel scroll
      children := nodesWithScroll carousel scroll n.children } := by
  obtain ⟨id, path, content, frame, inner, style, action, hidden, children⟩ := n
  cases content with
  | carousel spacing before pages =>
    rw [LayoutNode.withScroll]
    rfl
  | _ => simp [LayoutNode.withScroll, LayoutNode.scrolled]

mutual

/-- Scrolling changes the scroll offset of one carousel and nothing else. -/
theorem forall₂_withScroll (carousel : Nat) (scroll : Binary64) : ∀ n : LayoutNode,
    List.Forall₂ (LayoutNode.IsScrolled carousel scroll) (n.withScroll carousel scroll).nodes
      n.nodes
  | ⟨id, path, content, frame, inner, style, action, hidden, children⟩ => by
    rw [withScroll_eq, LayoutNode.nodes, LayoutNode.nodes]
    exact .cons ⟨rfl, rfl, rfl, rfl, rfl, rfl⟩ (forall₂_nodesWithScroll carousel scroll children)

theorem forall₂_nodesWithScroll (carousel : Nat) (scroll : Binary64) : ∀ ns : List LayoutNode,
    List.Forall₂ (LayoutNode.IsScrolled carousel scroll)
      (nodesOf (nodesWithScroll carousel scroll ns)) (nodesOf ns)
  | [] => .nil
  | n :: rest => by
    rw [nodesWithScroll, nodesOf, nodesOf]
    exact List.rel_append (forall₂_withScroll carousel scroll n)
      (forall₂_nodesWithScroll carousel scroll rest)

end

theorem placements_withScroll (carousel : Nat) (scroll : Binary64) (n : LayoutNode) :
    (n.withScroll carousel scroll).placements = n.placements := by
  have hall := forall₂_withScroll carousel scroll n
  exact map_eq_map_of_forall₂ hall fun h => by rw [h.id_eq, h.frame_eq, h.inner_eq]

end MessageCard
