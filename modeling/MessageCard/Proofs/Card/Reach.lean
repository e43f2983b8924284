import MessageCard.Proofs.Card.Taking

/-!
# Cards as they come about

A card comes about by rendering templates at various widths, by bitmaps that arrive and by
scrolling. Each of these steps leaves a card in order, so every card that comes about is.
-/
namespace MessageCard
namespace Card

variable {σ : Type}

/-! ## Scrolling -/

/-- The card with a carousel scrolled, and the layout that shows it. -/
def scrolled (c : Card σ) (l : LiveLayout σ) (n : OutlineNode) (state : CarouselState (Card σ))
    (scroll : Binary64) : Card σ :=
  { c with
    carousels := c.carousels.put ⟨c.identity, n.path⟩ { state with scroll }
    live := some { l with
      tree := { l.tree with root := l.tree.root.withScroll n.id scroll } } }

/-- Scrolling finds the carousel at its node. -/
theorem exists_of_scrollTo? {c t : Card σ} {node : Nat} {offset : Binary64}
    (h : c.scrollTo? node offset = some t) :
    ∃ l n spacing extent state, c.live = some l ∧ n ∈ l.root.nodes ∧ n.id = node ∧
      n.slot = .carousel spacing extent ∧ c.carousel? n.path = some state ∧
      t = c.scrolled l n state (max offset 0) := by
  obtain ⟨⟨key, state⟩, hat, h⟩ := Option.bind_eq_some_iff.mp h
  obtain ⟨n, hn, hat⟩ := Option.bind_eq_some_iff.mp hat
  obtain ⟨l, hl, hfind⟩ := Option.bind_eq_some_iff.mp hn
  have hid : n.id = node := by simpa using List.find?_some hfind
  cases hslot : n.slot with
  | carousel spacing extent =>
    simp only [hslot] at hat
    obtain ⟨state', hstate, hat⟩ := Option.bind_eq_some_iff.mp hat
    cases hat
    cases h
    refine ⟨l, n, spacing, extent, state, hl, List.mem_of_find?_eq_some hfind, hid, hslot, hstate,
      ?_⟩
    rw [scrolled, hl, hid]
    rfl
  | _ => simp [hslot] at hat

theorem carousel?_scrolled {c : Card σ} {l : LiveLayout σ} {n : OutlineNode}
    {state : CarouselState (Card σ)} {scroll : Binary64} {path : String} :
    (c.scrolled l n state scroll).carousel? path =
      if n.path = path then some { state with scroll } else c.carousel? path := by
  rw [carousel?, scrolled, CarouselCache.get?_put]
  simp [carousel?]

theorem strip?_scrolled {c : Card σ} {l : LiveLayout σ} {n : OutlineNode}
    {state : CarouselState (Card σ)} {scroll : Binary64} {path : String} :
    (c.scrolled l n state scroll).strip? path =
      if n.path = path then some ⟨scroll, state.pages.map tree?⟩ else c.strip? path := by
  rw [strip?, carousel?_scrolled]
  split <;> rfl

variable [RelationSolver σ]

/-- The node of a scrolled carousel shows the offset, and all other nodes what they showed. -/
theorem ShowsNode.scrolled {c : Card σ} {l : LiveLayout σ} {n k : OutlineNode}
    {state : CarouselState (Card σ)} {scroll : Binary64} {spacing : Binary64} {extent : Extent}
    {t u : LayoutNode} (hlaid : c.IsLaidOut l) (hn : n ∈ l.root.nodes)
    (hslot : n.slot = .carousel spacing extent) (hstate : c.carousel? n.path = some state)
    (hk : k ∈ l.root.nodes) (h : c.ShowsNode l.images t k)
    (hu : LayoutNode.IsScrolled n.id scroll u t) :
    (c.scrolled l n state scroll).ShowsNode l.images u k := by
  refine ⟨hu.id_eq.trans h.id_eq, hu.path_eq.trans h.path_eq, hu.hidden_eq.trans h.hidden_eq, ?_,
    fun hhidden => hu.isBlank (h.blank hhidden)⟩
  intro hshown
  obtain ⟨solution, m, hcontent⟩ := h.content hshown
  refine ⟨solution, m, ?_⟩
  rw [hu.content_eq, LayoutNode.scrolled, hcontent, h.id_eq]
  cases hkslot : k.slot with
  | carousel spacing' extent' =>
    by_cases hid : k.id = n.id
    · have hkn : k = n := hlaid.eq_of_id hk hn hid
      subst hkn
      have hstrip : c.strip? k.path = some (strip state) := by rw [strip?, hstate]; rfl
      simp [Drawing.content, hkslot, hshown, hstrip, strip?_scrolled, strip]
    · have hpath := hlaid.path_ne hk hn hid
      have hstrip : (c.scrolled l n state scroll).strip? k.path = c.strip? k.path := by
        rw [strip?_scrolled, if_neg hpath]
      simp only [Drawing.content, hkslot, hstrip]
      split
      case h_1 before => rw [if_neg hid, before]
      case h_2 => rfl
  | _ => simp [Drawing.content, hkslot]

/-- Scrolling leaves a card in order. -/
theorem isKept_scrollTo {c t : Card σ} {node : Nat} {offset : Binary64} (hc : c.IsKept)
    (h : c.scrollTo? node offset = some t) : t.IsKept := by
  obtain ⟨l, n, spacing, extent, state, hl, hn, rfl, hslot, hstate, rfl⟩ := exists_of_scrollTo? h
  have hlaid := hc.isLaidOut hl
  have hpages : ∀ p ∈ state.pages, p.IsKept := fun p hp => hc.page hstate hp
  refine .of (hc.pages.put fun _ p hp => hpages p (List.mem_of_getElem? hp)) fun l' hl' => ?_
  cases hl'
  refine ⟨hlaid.sound, hlaid.solved, hlaid.ids, hlaid.paths, ?_, fun m strip? => ?_, ⟨?_, ?_⟩, ?_,
    fun k hk hhidden => ?_, hlaid.regular, hlaid.mentions⟩
  · exact forall₂_trans (forall₂_withScroll n.id (max offset 0) l.tree.root) hlaid.shows
      fun u t k hk hu ht => .scrolled hlaid hn hslot hstate hk ht hu
  · rw [← hlaid.placements m strip?]
    simp only [LayoutOf.placements, placements_withScroll]
  · exact hlaid.suits.images
  · intro k hk hshown hflexible spacing' extent' hkslot state' hstate'
    rw [carousel?_scrolled] at hstate'
    split at hstate'
    case isTrue hpath =>
      rw [hpath] at hstate
      cases hstate'
      exact hlaid.suits.carousels k hk hshown hflexible spacing' extent' hkslot state hstate
    case isFalse =>
      exact hlaid.suits.carousels k hk hshown hflexible spacing' extent' hkslot state' hstate'
  · intro k hk hshown spacing' extent' hkslot
    rw [carousel?_scrolled]
    split
    · exact ⟨_, rfl⟩
    · exact hlaid.keepsPages k hk hshown spacing' extent' hkslot
  · have hdropped := hlaid.dropsPages k hk hhidden
    rw [carousel?_scrolled, if_neg, hdropped]
    intro hpath
    rw [hpath, hdropped] at hstate
    cases hstate

/-! ## All cards -/

/-- A card that came about by rendering, by bitmaps that arrived and by scrolling. -/
inductive Reachable : Card σ → Prop
  | new (s : LayoutSettings) : Reachable (new s)
  | withMaxWidth {c : Card σ} (hc : Reachable c) (maxWidth : Binary64) :
      Reachable (c.withMaxWidth maxWidth)
  | render {c : Card σ} (hc : Reachable c) (sizes : ImageSizes) (identity : CardIdentity)
      (t : Template) : Reachable (c.render sizes identity t).1
  | renderBody {c : Card σ} (hc : Reachable c) (sizes : ImageSizes) (identity : CardIdentity)
      (items : List Item) : Reachable (c.renderBody sizes identity items).1
  | accept {c : Card σ} {sizes : ImageSizes} {identity : CardIdentity} {route : ImageRoute}
      {url : String} {bitmap : Bitmap} {a : Accepted σ} (hc : Reachable c)
      (ha : c.accept sizes identity route url bitmap = some a) : Reachable a.card
  | scrollTo {c t : Card σ} {node : Nat} {offset : Binary64} (hc : Reachable c)
      (ht : c.scrollTo? node offset = some t) : Reachable t

/-- Every card that comes about is in order. -/
theorem Reachable.isKept {c : Card σ} (h : c.Reachable) : c.IsKept := by
  induction h with
  | new s => exact isKept_new s
  | withMaxWidth _ maxWidth ih => exact ih.withMaxWidth maxWidth
  | render _ sizes identity t ih => exact survivesRendering_isKept.renderPage t identity [] _ ih
  | renderBody _ sizes identity items ih =>
    exact survivesRendering_isKept.renderBody identity items [] ih
  | accept _ ha ih => exact (takes_of_accept ih ha).isKept ih
  | scrollTo _ ht ih => exact isKept_scrollTo ih ht

end Card
end MessageCard
