import MessageCard.Proofs.Card.Reach
import MessageCard.Proofs.Card.Requests

/-!
# Layouts show the pages that are kept

The pages of a carousel and its scroll offset are held twice: by the card, which keeps them for the
next rendering, and by the layout, which shows them. Rendering, bitmaps and scrolling change the one
and then the other. On every card that came about the two agree, and so they do on all its pages,
which are cards themselves.
-/
namespace MessageCard
namespace Card

variable {σ : Type}

/-- A carousel that is shown displays the pages kept for it, at the offset kept for it. -/
theorem ShowsNode.content_kept {c : Card σ} {images : Table Nat LoadedImage} {t : LayoutNode}
    {n : OutlineNode} {spacing : Binary64} {extent : Extent} {state : CarouselState (Card σ)}
    (h : c.ShowsNode images t n) (hshown : n.hidden = false)
    (hslot : n.slot = .carousel spacing extent) (hstate : c.carousel? n.path = some state) :
    t.content = .carousel spacing state.scroll (Drawing.pages spacing (state.pages.map tree?)) := by
  obtain ⟨solution, m, hcontent⟩ := h.content hshown
  rw [hcontent]
  simp only [Drawing.content, hslot, hshown, Bool.false_eq_true, if_false, strip?, hstate]
  rfl

variable [RelationSolver σ]

/-- The offset of a carousel is found by its node. -/
theorem IsLaidOut.scroll?_eq {c : Card σ} {l : LiveLayout σ} (h : c.IsLaidOut l)
    (hl : c.live = some l) {n : OutlineNode} (hn : n ∈ l.root.nodes) {spacing : Binary64}
    {extent : Extent} (hslot : n.slot = .carousel spacing extent) {state : CarouselState (Card σ)}
    (hstate : c.carousel? n.path = some state) : c.scroll? n.id = some state.scroll := by
  rw [scroll?, carouselAt?, h.node?_eq hl hn]
  simp [hslot, hstate]

/-- A carousel with a place in the layout can be scrolled. -/
theorem IsLaidOut.scrollTo?_eq {c : Card σ} {l : LiveLayout σ} (h : c.IsLaidOut l)
    (hl : c.live = some l) {n : OutlineNode} (hn : n ∈ l.root.nodes) {spacing : Binary64}
    {extent : Extent} (hslot : n.slot = .carousel spacing extent) {state : CarouselState (Card σ)}
    (hstate : c.carousel? n.path = some state) (offset : Binary64) :
    c.scrollTo? n.id offset = some (c.scrolled l n state (max offset 0)) := by
  rw [scrollTo?, carouselAt?, h.node?_eq hl hn]
  simp [hslot, hstate, hl, scrolled]

/-- On a card in order, each carousel of the layout displays the pages that the card keeps, at the
offset that it reports. -/
theorem IsLaidOut.mirrors {c : Card σ} {l : LiveLayout σ} (h : c.IsLaidOut l)
    (hl : c.live = some l) {n : LayoutNode} (hn : n ∈ l.tree.nodes) (hshown : n.hidden = false)
    {spacing scroll : Binary64} {pages : List (PageOf LayoutTree)}
    (hcontent : n.content = .carousel spacing scroll pages) :
    ∃ state, c.carousel? n.path = some state ∧ pages.map (·.tree) = state.pages.map tree? ∧
      c.scroll? n.id = some scroll := by
  obtain ⟨k, hk, hshows⟩ := (exists_of_forall₂ h.shows).1 n hn
  have hkshown : k.hidden = false := hshows.hidden_eq ▸ hshown
  obtain ⟨extent, hslot, -⟩ := hshows.exists_carousel hkshown hcontent
  obtain ⟨state, hstate⟩ := h.keepsPages k hk hkshown spacing extent hslot
  cases hcontent.symm.trans (hshows.content_kept hkshown hslot hstate)
  refine ⟨state, ?_, Drawing.map_tree_pages _ _, ?_⟩
  · rw [hshows.path_eq, hstate]
  · rw [hshows.id_eq, h.scroll?_eq hl hk hslot hstate]

/-- Along every way through the pages of a card that came about, each carousel that the layout shows
carries page for page the layouts of the cards kept for it, none where a page could not be rendered,
and the scroll offset that is reported for it. -/
theorem layout_mirrors_pages {c : Card σ} (hc : c.Reachable) :
    (∀ way d t, c.cardAt? way = some d → d.tree? = some t → ∀ n ∈ t.nodes, n.hidden = false →
      ∀ spacing scroll pages, n.content = .carousel spacing scroll pages →
      ∃ state, d.carousel? n.path = some state ∧ pages.map (·.tree) = state.pages.map tree? ∧
        d.scroll? n.id = some scroll) ∧
    ∀ (d : Card σ) sizes identity (t : Template),
      (d.render sizes identity t).1.tree? = (d.render sizes identity t).2.toOption := by
  constructor
  · intro way d t hd ht n hn hshown spacing scroll pages hcontent
    obtain ⟨l, hl, rfl⟩ := Option.map_eq_some_iff.mp ht
    exact ((hc.isKept.of_cardAt? hd).isLaidOut hl).mirrors hl hn hshown hcontent
  · intro d sizes identity t
    exact tree?_renderPage sizes identity t d

/-- A card that shows two pages side by side, one of them without a body, and was scrolled. -/
theorem layout_mirrors_pages_of_scrolled :
    let page : Template := ⟨1, some [.image false ⟨View.plain, "a", .aspectFit, none, none⟩]⟩
    let t : Template := ⟨1, some [.carousel View.plain [page, ⟨1, none⟩] 8]⟩
    let first : Card (Linear.Tableau .exact) := ((new {}).render .empty ⟨"m", 1⟩ t).1
    ∃ c l n pages state, first.scrollTo? 1 12 = some c ∧ c.live = some l ∧ n ∈ l.tree.nodes ∧
      n.content = .carousel 8 12 pages ∧ c.carousel? n.path = some state ∧
      pages.map (·.tree) = state.pages.map tree? ∧ c.scroll? n.id = some 12 := by
  intro page t first
  have hfirst : first.Reachable := .render (.new {}) _ _ _
  obtain ⟨l, board, hrendered, -, -, hroot, -⟩ :=
    (new {} : Card (Linear.Tableau .exact)).exists_renderPage ⟨"m", 1⟩ .empty 1
      [.carousel View.plain [page, ⟨1, none⟩] 8] rfl
  have hl : first.live = some l := congrArg live hrendered
  have hlaid := hfirst.isKept.isLaidOut hl
  obtain ⟨extent, houtline⟩ := exists_bodyOutline_carousel {} .empty ⟨"m", 1⟩
    (new {} : Card (Linear.Tableau .exact)).carousels.beginPass View.plain [page, ⟨1, none⟩] 8
  let k : OutlineNode :=
    ⟨1, itemPath "body" 0, View.plain, false, false, .carousel 8 extent, []⟩
  have hk : k ∈ l.root.nodes := by
    rw [hroot.trans houtline]
    simp [rootNode, OutlineNode.nodes, outlineNodes, k]
  obtain ⟨state, hstate⟩ := hlaid.keepsPages k hk rfl 8 extent rfl
  have hscroll : first.scrollTo? 1 12 = some (first.scrolled l k state 12) :=
    hlaid.scrollTo?_eq hl hk rfl hstate 12
  -- The scrolled card came about as well, and its layout shows the offset.
  have hc : (first.scrolled l k state 12).Reachable := .scrollTo hfirst hscroll
  obtain ⟨n, hn, hshows⟩ := (exists_of_forall₂ (hc.isKept.isLaidOut rfl).shows).2 k hk
  have hcontent := hshows.content_kept rfl rfl (carousel?_scrolled.trans (if_pos rfl))
  obtain ⟨kept, hkept, htrees, hreported⟩ := (layout_mirrors_pages hc).1 [] _ _ rfl rfl n hn
    hshows.hidden_eq 8 12 _ hcontent
  exact ⟨_, _, n, _, kept, hscroll, rfl, hn, hcontent, hkept, htrees, hreported⟩

end Card
end MessageCard
