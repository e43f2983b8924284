import MessageCard.Proofs.Card.Layouts
import MessageCard.Proofs.Card.Mirror
import MessageCard.Proofs.Layout.Trees

/-!
# Layouts of bodies

Every layout that a card shows, or that a page of it shows, is one of a body: its root is shown and
has the path of the body, all other nodes have paths that lead on from there, and what is below a
hidden node is hidden. So the nodes of one layout have paths of their own, but those of the layouts
on its pages begin anew.
-/
namespace MessageCard

/-! ## Hidden nodes of a tree -/

/-- The children of a hidden node are hidden. -/
def LayoutNode.IsRegular (n : LayoutNode) : Prop :=
  n.hidden = true → ∀ c ∈ n.children, c.hidden = true

namespace Drawing

theorem map_hidden_nodes (d : Drawing) (ns : List OutlineNode) (origin : Point) :
    (d.nodes origin ns).map (·.hidden) = ns.map (·.hidden) := by
  induction ns with
  | nil => rfl
  | cons n rest ih =>
    rw [nodes, List.map_cons, ih, List.map_cons]
    cases n
    rw [node]

mutual

/-- Of a regular outline the tree is drawn regular. -/
theorem isRegular_node (d : Drawing) : ∀ (n : OutlineNode) (origin : Point),
    (∀ k ∈ n.nodes, k.IsRegular) → ∀ t ∈ (d.node origin n).nodes, t.IsRegular
  | ⟨id, path, view, hidden, loosened, slot, children⟩, origin, h => by
    rw [OutlineNode.nodes, List.forall_mem_cons] at h
    rw [node, LayoutNode.nodes, List.forall_mem_cons]
    refine ⟨fun hhidden => ?_, isRegular_nodes d children _ h.2⟩
    have hchildren : ∀ b ∈ children.map (·.hidden), b = true :=
      List.forall_mem_map.mpr (h.1.hidden hhidden)
    rw [← map_hidden_nodes d] at hchildren
    exact List.forall_mem_map.mp hchildren

theorem isRegular_nodes (d : Drawing) : ∀ (ns : List OutlineNode) (origin : Point),
    (∀ k ∈ outlineNodes ns, k.IsRegular) → ∀ t ∈ nodesOf (d.nodes origin ns), t.IsRegular
  | [], origin, h => by simp [nodes, nodesOf]
  | n :: rest, origin, h => by
    rw [outlineNodes, List.forall_mem_append] at h
    rw [nodes, nodesOf, List.forall_mem_append]
    exact ⟨isRegular_node d n origin h.1, isRegular_nodes d rest origin h.2⟩

end

end Drawing

theorem hidden_withScroll (carousel : Nat) (scroll : Binary64) (n : LayoutNode) :
    (n.withScroll carousel scroll).hidden = n.hidden := by rw [withScroll_eq]

theorem nodesWithScroll_eq_map (carousel : Nat) (scroll : Binary64) (ns : List LayoutNode) :
    nodesWithScroll carousel scroll ns = ns.map (·.withScroll carousel scroll) := by
  induction ns with
  | nil => rfl
  | cons n rest ih => rw [nodesWithScroll, ih, List.map_cons]

/-- Scrolling hides nothing and shows nothing. -/
theorem isRegular_withScroll (carousel : Nat) (scroll : Binary64) (n : LayoutNode)
    (h : ∀ k ∈ n.nodes, k.IsRegular) :
    ∀ t ∈ (n.withScroll carousel scroll).nodes, t.IsRegular := by
  induction n using LayoutNode.induction with
  | step n ih =>
    rw [LayoutNode.nodes_eq, LayoutNode.nodesOf_eq, List.forall_mem_cons] at h
    rw [withScroll_eq, LayoutNode.nodes_eq, LayoutNode.nodesOf_eq, List.forall_mem_cons]
    simp only [nodesWithScroll_eq_map]
    constructor
    · intro hhidden
      refine List.forall_mem_map.mpr fun c hc => ?_
      rw [hidden_withScroll]
      exact h.1 hhidden c hc
    · intro t ht
      rw [List.flatMap_map] at ht
      obtain ⟨c, hc, ht⟩ := List.mem_flatMap.mp ht
      exact ih c hc (fun k hk => h.2 k (List.mem_flatMap.mpr ⟨c, hc, hk⟩)) t ht

/-! ## Layouts of bodies -/

/-- A live layout of a body. -/
structure LiveLayout.IsOfBody {σ : Type} (l : LiveLayout σ) : Prop where
  root_path : l.root.path = "body"
  root_shown : l.root.hidden = false
  paths : ∀ n ∈ l.root.nodes, ∃ way, n.path = pathFrom "body" way
  regular : ∀ t ∈ l.tree.nodes, t.IsRegular

/-- A layout with the nodes of a body. -/
structure LayoutOf.IsOfBody (t : LayoutTree) : Prop where
  root_path : t.root.path = "body"
  root_shown : t.root.hidden = false
  paths : ∀ n ∈ t.nodes, ∃ way, n.path = pathFrom "body" way
  nodup : (t.nodes.map (·.path)).Nodup
  regular : ∀ n ∈ t.nodes, n.IsRegular

namespace LiveLayout

variable {σ : Type} [RelationSolver σ] {l : LiveLayout σ}

/-- What is settled for the outline of a body is a layout of a body. -/
theorem isOfBody_of_settled {m : TextMeasurer} {strip? : String → Option StripState}
    {root : OutlineNode} {images : Table Nat LoadedImage} {start : Measured σ}
    (hl : l.IsSettled m strip? root images start) (hpath : root.path = "body")
    (hshown : root.hidden = false) (hpaths : ∀ n ∈ root.nodes, ∃ way, n.path = pathFrom "body" way)
    (hregular : ∀ n ∈ root.nodes, n.IsRegular) : l.IsOfBody := by
  obtain ⟨rfl, -, -, -, htree, -⟩ := hl
  refine ⟨hpath, hshown, hpaths, ?_⟩
  rw [htree]
  exact Drawing.isRegular_node _ l.root ⟨0, 0⟩ hregular

/-- The tree of a layout of a body. -/
theorem IsOfBody.tree {c : Card σ} (hbody : l.IsOfBody) (hlaid : c.IsLaidOut l) :
    l.tree.IsOfBody := by
  have hpaths := map_eq_map_of_forall₂ (f := (·.path)) (g := (·.path)) hlaid.shows
    fun h => h.path_eq
  have hroot : c.ShowsNode l.images l.tree.root l.root := by
    have hshows := hlaid.shows
    rw [LayoutOf.nodes_eq, OutlineNode.nodes_eq] at hshows
    cases hshows with
    | cons hroot _ => exact hroot
  refine ⟨hroot.path_eq.trans hbody.root_path, hroot.hidden_eq.trans hbody.root_shown,
    fun n hn => ?_, hpaths ▸ hlaid.paths, hbody.regular⟩
  obtain ⟨k, hk, hshows⟩ := (exists_of_forall₂ hlaid.shows).1 n hn
  obtain ⟨way, hway⟩ := hbody.paths k hk
  exact ⟨way, hshows.path_eq.trans hway⟩

end LiveLayout

namespace Card

variable {σ : Type} [RelationSolver σ] {c : Card σ}

/-- Layouts are of bodies from the first on, and stay so. -/
theorem lasts_isOfBody : Lasts (LiveLayout.IsOfBody (σ := σ)) where
  rendered {s sizes identity items cs m strip? images board l} _ _ hl := by
    refine LiveLayout.isOfBody_of_settled hl rfl rfl (fun n hn => ?_)
      (isRegular_bodyOutline s sizes identity items cs)
    have hpath := List.mem_map_of_mem (f := (·.path)) hn
    rw [paths_bodyOutline] at hpath
    obtain ⟨way, -, hway⟩ := List.mem_map.mp hpath
    exact ⟨way, hway.symm⟩
  scrolled {l} hl carousel scroll := ⟨hl.root_path, hl.root_shown, hl.paths,
    isRegular_withScroll carousel scroll l.tree.root hl.regular⟩
  resettled hlaid hl _ ht :=
    LiveLayout.isOfBody_of_settled ht hl.root_path hl.root_shown hl.paths hlaid.regular

/-! ## Bodies that a card shows -/

theorem tree_isOfBody (hc : c.ShowsOnly LiveLayout.IsOfBody) (hkept : c.IsKept) {t : LayoutTree}
    (ht : c.tree? = some t) : t.IsOfBody := by
  obtain ⟨l, hl, rfl⟩ := Option.map_eq_some_iff.mp ht
  exact (hc.live hl).tree (hkept.isLaidOut hl)

/-- The layouts on the pages of a card's layout are layouts of bodies as well. -/
theorem pageTree_isOfBody (hc : c.ShowsOnly LiveLayout.IsOfBody) (hkept : c.IsKept)
    {t : LayoutTree} (ht : c.tree? = some t) {n : LayoutNode} (hn : n ∈ t.nodes)
    (hshown : n.hidden = false) {spacing scroll : Binary64} {pages : List (PageOf LayoutTree)}
    (hcontent : n.content = .carousel spacing scroll pages) {p : PageOf LayoutTree} (hp : p ∈ pages)
    {page : LayoutTree} (hpage : p.tree = some page) : page.IsOfBody := by
  obtain ⟨l, hl, rfl⟩ := Option.map_eq_some_iff.mp ht
  obtain ⟨state, hstate, htrees, -⟩ := (hkept.isLaidOut hl).mirrors hl hn hshown hcontent
  have hmem : some page ∈ state.pages.map tree? := by
    rw [← htrees, ← hpage]
    exact List.mem_map_of_mem hp
  obtain ⟨q, hq, htree⟩ := List.mem_map.mp hmem
  obtain ⟨i, hi⟩ := List.getElem?_of_mem hq
  exact tree_isOfBody (hc.pages.get hstate hi) (hkept.page hstate hq) htree

end Card
end MessageCard
