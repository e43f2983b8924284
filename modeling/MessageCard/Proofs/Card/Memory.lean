import MessageCard.Proofs.Card.Events
import MessageCard.Proofs.Card.Mirror

/-!
# What a card remembers

Every run of a card leaves it as its history says, so the offset of each carousel that a layout shows
can be told from what happened before, and a rendering builds anew just the carousels that the
message rendered before did not show. What a layout shows are the carousels of the body, except
those that had to be hidden, each once and with the pages that its template has.
-/
namespace MessageCard

/-- Whether a layout shows a node at a path. -/
def LayoutOf.shows (t : LayoutTree) (path : String) : Bool :=
  t.nodes.any fun n => n.path = path && !n.hidden

/-- The carousels of a body that its layout shows. -/
def shownCarousels (items : List Item) (t : LayoutTree) : List CarouselSpot :=
  (carouselsFrom "body" 0 items).filter fun spot => t.shows spot.path

/-- A node that shows a carousel at an offset. -/
structure LayoutNode.ShowsCarousel (n : LayoutNode) (spot : CarouselSpot) (scroll : Binary64) :
    Prop where
  shown : n.hidden = false
  path_eq : n.path = spot.path
  content : ∃ spacing pages, n.content = .carousel spacing scroll pages ∧
    pages.length = spot.pages

namespace Card

variable {σ : Type} {c d : Card σ} {past : List CardEvent} {e : CardEvent}
  {identity : CardIdentity} {shown : List CarouselSpot}

/-- A strip has as many pages as are kept. -/
theorem length_pages (spacing : Binary64) (pages : List (Card σ)) :
    (Drawing.pages spacing (pages.map tree?)).length = pages.length := by
  have htrees := congrArg List.length (Drawing.map_tree_pages spacing (pages.map tree?))
  rwa [List.length_map, List.length_map] at htrees

variable [RelationSolver σ]

/-! ## Steps and runs -/

/-- What may happen to a card. -/
inductive Step : Card σ → CardEvent → Card σ → Prop
  | render {c : Card σ} {sizes : ImageSizes} {identity : CardIdentity} {t : Template}
      {items : List Item} {tree : LayoutTree} (body : t.body = some items)
      (rendered : (c.render sizes identity t).2 = .ok tree) :
      Step c (.rendered identity (shownCarousels items tree)) (c.render sizes identity t).1
  | renderBody {c : Card σ} {sizes : ImageSizes} {identity : CardIdentity} {items : List Item}
      {tree : LayoutTree} (rendered : (c.renderBody sizes identity items).2 = .ok tree) :
      Step c (.rendered identity (shownCarousels items tree)) (c.renderBody sizes identity items).1
  | fail {c : Card σ} {sizes : ImageSizes} {identity : CardIdentity} {t : Template}
      {e : LayoutError} (fails : (c.render sizes identity t).2 = .error e) :
      Step c .failed (c.render sizes identity t).1
  | scroll {c d : Card σ} {node : Nat} {offset : Binary64} {key : CarouselKey}
      {state : CarouselState (Card σ)} (found : c.carouselAt? node = some (key, state))
      (scrolled : c.scrollTo? node offset = some d) :
      Step c (.scrolled key state.pages.length offset) d
  | accept {c : Card σ} {sizes : ImageSizes} {identity : CardIdentity} {route : ImageRoute}
      {url : String} {bitmap : Bitmap} {a : Accepted σ}
      (accepts : c.accept sizes identity route url bitmap = some a) : Step c .aside a.card
  | resize (c : Card σ) (maxWidth : Binary64) : Step c .aside (c.withMaxWidth maxWidth)

/-- What may happen to a card, step by step. -/
inductive Run : Card σ → List CardEvent → Card σ → Prop
  | nil {c : Card σ} : Run c [] c
  | concat {b c d : Card σ} {past : List CardEvent} {e : CardEvent} :
      Run b past c → Step c e d → Run b (past ++ [e]) d

variable {sizes : ImageSizes} {items : List Item}

theorem Step.reachable (h : Step c e d) (hc : c.Reachable) : d.Reachable := by
  cases h with
  | render body rendered => exact hc.render _ _ _
  | renderBody rendered => exact hc.renderBody _ _ _
  | fail fails => exact hc.render _ _ _
  | scroll found scrolled => exact hc.scrollTo scrolled
  | accept accepts => exact hc.accept accepts
  | resize maxWidth => exact hc.withMaxWidth maxWidth

theorem Run.reachable {s : LayoutSettings} (h : Run (new s) past c) : c.Reachable := by
  induction h with
  | nil => exact .new s
  | concat _ hstep ih => exact hstep.reachable ih

/-! ## What a layout shows -/

/-- A layout shows the nodes of its outline that are not hidden. -/
theorem IsLaidOut.shows_path {l : LiveLayout σ} (h : c.IsLaidOut l) {n : OutlineNode}
    (hn : n ∈ l.root.nodes) : l.tree.shows n.path = !n.hidden := by
  rw [Bool.eq_iff_iff, LayoutOf.shows, List.any_eq_true]
  constructor
  · rintro ⟨m, hm, hshows⟩
    obtain ⟨hpath, hshown⟩ := Bool.and_eq_true_iff.mp hshows
    obtain ⟨k, hk, hmk⟩ := (exists_of_forall₂ h.shows).1 m hm
    have hkn : k.path = n.path := hmk.path_eq.symm.trans (of_decide_eq_true hpath)
    obtain rfl : k = n := List.inj_on_of_nodup_map h.paths hk hn hkn
    rwa [← hmk.hidden_eq]
  · intro hshown
    obtain ⟨m, hm, hmn⟩ := (exists_of_forall₂ h.shows).2 n hn
    refine ⟨m, hm, Bool.and_eq_true_iff.mpr ⟨decide_eq_true hmn.path_eq, ?_⟩⟩
    rwa [hmn.hidden_eq]

/-- A carousel that a layout shows is found at its node, with the pages and the offset shown. -/
theorem IsLaidOut.exists_carouselAt? {l : LiveLayout σ} (h : c.IsLaidOut l)
    (hl : c.live = some l) {n : LayoutNode} (hn : n ∈ l.tree.nodes) {spot : CarouselSpot}
    {scroll : Binary64} (hshows : n.ShowsCarousel spot scroll) :
    ∃ state, c.carouselAt? n.id = some (spot.on c.identity, state) ∧
      state.record = ⟨spot.pages, scroll⟩ := by
  obtain ⟨hshown, hpath, spacing, pages, hcontent, hpages⟩ := hshows
  obtain ⟨k, hk, hnk⟩ := (exists_of_forall₂ h.shows).1 n hn
  have hkshown : k.hidden = false := hnk.hidden_eq.symm.trans hshown
  obtain ⟨extent, hslot, -⟩ := hnk.exists_carousel hkshown hcontent
  obtain ⟨state, hstate⟩ := h.keepsPages k hk hkshown spacing extent hslot
  cases hcontent.symm.trans (hnk.content_kept hkshown hslot hstate)
  refine ⟨state, ?_, ?_⟩
  · rw [carouselAt?, hnk.id_eq, h.node?_eq hl hk]
    simp [hslot, hstate, CarouselSpot.on, ← hpath, hnk.path_eq]
  · rw [CarouselState.record, ← hpages, length_pages]

/-- A carousel of the outline that is shown has a node, with the pages and at the offset kept. -/
theorem IsLaidOut.exists_showsCarousel {l : LiveLayout σ} (h : c.IsLaidOut l) {k : OutlineNode}
    (hk : k ∈ l.root.nodes) (hshows : l.tree.shows k.path = true) {spacing : Binary64}
    {extent : Extent} (hslot : k.slot = .carousel spacing extent) {r : CarouselRecord}
    (hrecord : c.carousels.record? ⟨c.identity, k.path⟩ = some r) :
    ∃ n ∈ l.tree.nodes, n.ShowsCarousel ⟨k.path, r.pages⟩ r.scroll := by
  have hkshown : k.hidden = false := by simpa [h.shows_path hk] using hshows
  obtain ⟨n, hn, hnk⟩ := (exists_of_forall₂ h.shows).2 k hk
  obtain ⟨state, hstate, rfl⟩ := Option.map_eq_some_iff.mp hrecord
  exact ⟨n, hn, hnk.hidden_eq.trans hkshown, hnk.path_eq, spacing, _,
    hnk.content_kept hkshown hslot hstate, length_pages spacing state.pages⟩

/-! ## What a step keeps -/

/-- A rendering keeps the carousels that the layout shows, and drops all others. -/
theorem exists_of_renderBody (hc : c.Reachable) {tree : LayoutTree}
    (h : (c.renderBody sizes identity items).2 = .ok tree) :
    IsRendering c identity (shownCarousels items tree) (c.renderBody sizes identity items).1 ∧
      (c.renderBody sizes identity items).1.tree? = some tree ∧
      ∀ spot, spot ∈ shownCarousels items tree ↔
        ∃ n ∈ tree.nodes, ∃ scroll, n.ShowsCarousel spot scroll := by
  have hreachable := hc.renderBody sizes identity items
  obtain ⟨l, hrendered, hroot⟩ := exists_renderBody c sizes identity items
  rw [hrendered] at h hreachable ⊢
  cases h
  have hlaid := hreachable.isKept.isLaidOut rfl
  have hnodes : ∀ n ∈ outlineNodes (arrangeAll c.settings sizes identity
      (bodySiblings c.settings sizes items) items 0 1 c.carousels.beginPass).1,
      n ∈ l.root.nodes := by
    intro n hn
    rw [hroot, OutlineNode.nodes_eq]
    exact List.mem_cons_of_mem _ hn
  have hclaims := claims_arrangeAll l.tree.shows items (bodySiblings c.settings sizes items) 0 1
    c.carousels.beginPass (fun n hn => hlaid.shows_path (hnodes n hn)) fun _ _ => rfl
  have hrendering : IsRendering c identity (shownCarousels items l.tree) ⟨c.settings, identity,
      (arrangeAll c.settings sizes identity (bodySiblings c.settings sizes items) items 0 1
        c.carousels.beginPass).2.endPass, some l⟩ :=
    ⟨hclaims.claimed, fun key hkey => (hclaims.others key hkey).1, hclaims.builds_eq⟩
  refine ⟨hrendering, rfl, fun spot => ⟨fun hspot => ?_, ?_⟩⟩
  · obtain ⟨hmem, hshows⟩ := List.mem_filter.mp hspot
    obtain ⟨k, hk, hpath, spacing, extent, hslot⟩ := exists_node_of_mem items
      (bodySiblings c.settings sizes items) 0 1 c.carousels.beginPass hmem
    obtain ⟨path, pages⟩ := spot
    obtain rfl : k.path = path := hpath
    obtain ⟨n, hn, hshows⟩ := hlaid.exists_showsCarousel (hnodes k hk) hshows hslot
      (hrendering.kept _ hspot)
    exact ⟨n, hn, _, hshows⟩
  · rintro ⟨n, hn, scroll, hshows⟩
    obtain ⟨state, hfound, hrecord⟩ := hlaid.exists_carouselAt? rfl hn hshows
    exact (hrendering.of_record? (hrecord ▸ record?_of_carouselAt? hfound)).2.1

/-- A message with a layout is rendered by its body. -/
theorem render_eq_of_ok {t : Template} {tree : LayoutTree} (hbody : t.body = some items)
    (h : (c.render sizes identity t).2 = .ok tree) :
    c.render sizes identity t = c.renderBody sizes identity items := by
  obtain ⟨version, body⟩ := t
  obtain rfl : body = some items := hbody
  cases hversion : supportedVersions.contains version with
  | true => exact render_eq_renderBody sizes identity version items c hversion
  | false =>
    rw [render, renderPage, if_neg (Bool.eq_false_iff.mp hversion)] at h
    cases h

/-- A message without a layout leaves the card empty, and the carousels as they are. -/
theorem render_eq_of_error {t : Template} {e : LayoutError}
    (h : (c.render sizes identity t).2 = .error e) : (c.render sizes identity t).1 = c.cleared := by
  obtain ⟨version, _ | items⟩ := t
  · rw [render, renderPage]
  · cases hversion : supportedVersions.contains version with
    | true =>
      obtain ⟨l, hl, -⟩ := exists_renderBody c sizes identity items
      rw [render_eq_renderBody sizes identity version items c hversion, hl] at h
      cases h
    | false => rw [render, renderPage, if_neg (Bool.eq_false_iff.mp hversion)]

/-- A bitmap changes neither the number of pages nor the offset of any carousel. -/
theorem Takes.record?_eq {node : Nat} {url : String} {bitmap : Bitmap} {hops : List (Nat × Nat)}
    {a : Accepted σ} (h : Takes sizes node url bitmap hops c a) (key : CarouselKey) :
    a.card.carousels.record? key = c.carousels.record? key := by
  cases h with
  | here => rfl
  | @page c inner l t n spacing extent state carousel page hops a board hl hn hid hshown hslot
      hstate hinner ha hboard ht =>
    show (c.carousels.put ⟨c.identity, n.path⟩
      { state with pages := state.pages.set page a.card }).record? key = _
    have hrecord : ({ state with pages := state.pages.set page a.card } :
        CarouselState (Card σ)).record = state.record := by
      rw [CarouselState.record, List.length_set, CarouselState.record]
    rw [CarouselCache.record?_put, hrecord]
    split
    case isTrue hkey =>
      subst hkey
      exact (congrArg (Option.map CarouselState.record) hstate).symm
    case isFalse => rfl

/-- A step that renders a message. -/
theorem Step.exists_of_rendered (h : Step c (.rendered identity shown) d) (hc : c.Reachable) :
    IsRendering c identity shown d ∧ (shown.map (·.path)).Nodup ∧ ∃ t, d.tree? = some t ∧
      ∀ spot, spot ∈ shown ↔ ∃ n ∈ t.nodes, ∃ scroll, n.ShowsCarousel spot scroll := by
  have hpaths : ∀ (items : List Item) (tree : LayoutTree),
      ((shownCarousels items tree).map (·.path)).Nodup := fun items tree =>
    (nodup_carouselsFrom "body" 0 items).sublist (List.filter_sublist.map _)
  cases h with
  | render body rendered =>
    have heq := render_eq_of_ok body rendered
    rw [heq] at rendered ⊢
    obtain ⟨hrendering, htree, hshown⟩ := exists_of_renderBody hc rendered
    exact ⟨hrendering, hpaths _ _, _, htree, hshown⟩
  | renderBody rendered =>
    obtain ⟨hrendering, htree, hshown⟩ := exists_of_renderBody hc rendered
    exact ⟨hrendering, hpaths _ _, _, htree, hshown⟩

/-- Every step leaves the card as its history says. -/
theorem Remembers.step (h : Remembers past c) (hc : c.Reachable) (hstep : Step c e d) :
    Remembers (past ++ [e]) d := by
  cases hstep with
  | render body rendered => exact h.render ((Step.render body rendered).exists_of_rendered hc).1
  | renderBody rendered => exact h.render ((Step.renderBody rendered).exists_of_rendered hc).1
  | fail fails => exact h.keep (fun key => by rw [render_eq_of_error fails]; rfl) (.inl rfl)
  | scroll found scrolled =>
    exact h.scroll (record?_of_carouselAt? found) (record?_scrollTo found scrolled)
  | accept accepts => exact h.keep (takes_of_accept hc.isKept accepts).record?_eq (.inr rfl)
  | resize maxWidth => exact h.keep (fun key => rfl) (.inr rfl)

/-! ## What is remembered -/

theorem Run.remembers {s : LayoutSettings} (h : Run (new s) past c) : Remembers past c := by
  induction h with
  | nil => exact remembers_new s
  | concat hrun hstep ih => exact ih.step hrun.reachable hstep

/-- A carousel that a layout shows can be scrolled. -/
theorem Run.exists_scroll {s : LayoutSettings} (h : Run (new s) past c) {t : LayoutTree}
    (ht : c.tree? = some t) {n : LayoutNode} (hn : n ∈ t.nodes) {spot : CarouselSpot}
    {scroll : Binary64} (hshows : n.ShowsCarousel spot scroll) (offset : Binary64) :
    ∃ d, Step c (.scrolled (spot.on c.identity) spot.pages offset) d := by
  obtain ⟨l, hl, rfl⟩ := Option.map_eq_some_iff.mp ht
  obtain ⟨state, hfound, hrecord⟩ :=
    (h.reachable.isKept.isLaidOut hl).exists_carouselAt? hl hn hshows
  obtain ⟨d, hd⟩ : ∃ d, c.scrollTo? n.id offset = some d := by simp [scrollTo?, hfound]
  have hpages : state.pages.length = spot.pages := congrArg CarouselRecord.pages hrecord
  exact ⟨d, hpages ▸ .scroll hfound hd⟩

/-- In every run of a card, each carousel that its layout shows belongs to the last message that was
rendered, and is scrolled to the offset last set for it, or to zero where none is to be kept. And a
rendering shows each of its carousels once, and builds those anew that the message rendered before
did not show. -/
theorem scroll_survives_renderings {s : LayoutSettings} (h : Run (new s) past c) :
    (∀ t, c.tree? = some t → ∀ n ∈ t.nodes, ∀ spot scroll, n.ShowsCarousel spot scroll →
      c.scroll? n.id = some scroll ∧ showed past (spot.on c.identity) spot.pages = true ∧
      (∀ offset, LastSet past (spot.on c.identity) spot.pages offset → scroll = max offset 0) ∧
      ((¬∃ offset, LastSet past (spot.on c.identity) spot.pages offset) → scroll = 0)) ∧
    ∀ identity shown d, Step c (.rendered identity shown) d →
      d.carousels.builds = c.carousels.builds +
        shown.countP (fun spot => !showed past (spot.on identity) spot.pages) ∧
      (shown.map (·.path)).Nodup ∧ ∃ t, d.tree? = some t ∧
        ∀ spot, spot ∈ shown ↔ ∃ n ∈ t.nodes, ∃ scroll, n.ShowsCarousel spot scroll := by
  have hremembers := h.remembers
  refine ⟨fun t ht n hn spot scroll hshows => ?_, fun identity shown d hstep => ?_⟩
  · obtain ⟨l, hl, rfl⟩ := Option.map_eq_some_iff.mp ht
    obtain ⟨state, hfound, hstate⟩ :=
      (h.reachable.isKept.isLaidOut hl).exists_carouselAt? hl hn hshows
    have hscroll : c.scroll? n.id = some state.scroll := by
      rw [scroll?, hfound]
      rfl
    have hrecord := hstate ▸ record?_of_carouselAt? hfound
    refine ⟨?_, (hremembers.showed_iff _ _).mpr ⟨scroll, hrecord⟩,
      hremembers.scroll_of_lastSet _ _ scroll hrecord, hremembers.scroll_of_not _ _ scroll hrecord⟩
    rw [hscroll, show state.scroll = scroll from congrArg CarouselRecord.scroll hstate]
  · obtain ⟨hrendering, hpaths, t, ht, hshown⟩ := hstep.exists_of_rendered h.reachable
    refine ⟨?_, hpaths, t, ht, hshown⟩
    rw [hrendering.builds_eq]
    refine congrArg _ (List.countP_congr fun spot _ => ?_)
    rw [hremembers.isReused_eq]

/-- A carousel that is the only item of a body is shown. -/
theorem exists_renderBody_carousel (hc : c.Reachable) (sizes : ImageSizes)
    (identity : CardIdentity) (view : View) (pages : List (TemplateOf Item)) (spacing : Binary64) :
    ∃ tree, (c.renderBody sizes identity [.carousel view pages spacing]).2 = .ok tree ∧
      shownCarousels [.carousel view pages spacing] tree = [⟨itemPath "body" 0, pages.length⟩] := by
  have hreachable := hc.renderBody sizes identity [.carousel view pages spacing]
  obtain ⟨l, hrendered, hroot⟩ :=
    exists_renderBody c sizes identity [.carousel view pages spacing]
  rw [hrendered] at hreachable ⊢
  obtain ⟨extent, houtline⟩ := exists_bodyOutline_carousel c.settings sizes identity
    c.carousels.beginPass view pages spacing
  let k : OutlineNode :=
    ⟨1, itemPath "body" 0, view, false, false, .carousel spacing extent, []⟩
  have hk : k ∈ l.root.nodes := by
    rw [hroot.trans houtline]
    simp [rootNode, OutlineNode.nodes, outlineNodes, k]
  have hshows : l.tree.shows (itemPath "body" 0) = true :=
    (hreachable.isKept.isLaidOut rfl).shows_path hk
  refine ⟨l.tree, rfl, ?_⟩
  simp [shownCarousels, carouselsFrom, Item.carousels, hshows]

/-- A carousel of two pages that is scrolled. The next message fails, and the one after that is the
same again. -/
theorem scroll_survives_renderings_of_two_pages :
    ∃ (past : List CardEvent) (b c : Card (Linear.Tableau .exact)) (identity : CardIdentity)
      (spot : CarouselSpot) (t : LayoutTree) (n : LayoutNode),
      Run (new {}) past b ∧ .failed ∈ past ∧ Step b (.rendered identity [spot]) c ∧
      c.tree? = some t ∧ n ∈ t.nodes ∧ n.ShowsCarousel spot 12 ∧ c.scroll? n.id = some 12 ∧
      c.carousels.builds = b.carousels.builds := by
  let identity : CardIdentity := ⟨"m", 1⟩
  let pages : List (TemplateOf Item) := [⟨1, none⟩, ⟨1, none⟩]
  let spot : CarouselSpot := ⟨itemPath "body" 0, 2⟩
  have hrenders (c : Card (Linear.Tableau .exact)) (hc : c.Reachable) :
      ∃ d, Step c (.rendered identity [spot]) d := by
    obtain ⟨tree, htree, hshown⟩ := exists_renderBody_carousel hc .empty identity View.plain pages 8
    have hstep := Step.renderBody htree
    rw [hshown] at hstep
    exact ⟨_, hstep⟩
  obtain ⟨first, hfirst⟩ := hrenders (new {}) (.new {})
  have hrun : Run (new {}) ([] ++ [_]) first := .concat .nil hfirst
  obtain ⟨-, -, t, ht, hshown⟩ := hfirst.exists_of_rendered (.new {})
  obtain ⟨n, hn, scroll, hshows⟩ := (hshown spot).mp List.mem_cons_self
  have hlatest := ((scroll_survives_renderings hrun).1 t ht n hn spot scroll hshows).2.1
  have hidentity : identity = first.identity := ((showed_concat_rendered ..).mp hlatest).1
  obtain ⟨second, hsecond⟩ := hrun.exists_scroll ht hn hshows 12
  rw [← hidentity] at hsecond
  have hrun := hrun.concat hsecond
  have hfails : (second.render .empty ⟨"other", 1⟩ ⟨1, none⟩).2 = .error .noBody := by
    rw [render, renderPage]
    rfl
  have hrun := hrun.concat (.fail hfails)
  obtain ⟨last, hlast⟩ := hrenders _ hrun.reachable
  obtain ⟨hbuilds, -, t, ht, hshown⟩ := (scroll_survives_renderings hrun).2 _ _ _ hlast
  obtain ⟨n, hn, scroll, hshows⟩ := (hshown spot).mp List.mem_cons_self
  obtain ⟨hscroll, hlatest, hset, -⟩ :=
    (scroll_survives_renderings (hrun.concat hlast)).1 t ht n hn spot scroll hshows
  have hidentity : identity = last.identity := ((showed_concat_rendered ..).mp hlatest).1
  rw [← hidentity] at hset
  have hset := hset 12 (lastSet_concat.mpr (.inr ⟨lastSet_concat.mpr (.inr
    ⟨lastSet_concat.mpr (.inl rfl), trivial⟩), rfl, List.mem_cons_self⟩))
  obtain rfl : scroll = 12 := hset
  have hshowed : showed (([] ++ [CardEvent.rendered identity [spot]]) ++
      [.scrolled (spot.on identity) 2 12] ++ [.failed]) (spot.on identity) spot.pages = true := by
    rw [showed_concat_of_none rfl, showed_concat_of_none rfl, showed_concat_rendered]
    exact ⟨rfl, List.mem_cons_self⟩
  refine ⟨_, _, last, identity, spot, t, n, hrun, List.mem_concat_self, hlast, ht, hn, hshows,
    hscroll, ?_⟩
  rw [hbuilds, List.countP_singleton, hshowed]
  rfl

end Card
end MessageCard
