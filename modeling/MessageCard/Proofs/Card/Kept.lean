import MessageCard.Card.Images
import MessageCard.Proofs.Card.Claims
import MessageCard.Proofs.Layout.Drawing
import MessageCard.Proofs.Layout.Mentions
import MessageCard.Proofs.Layout.Settling

/-!
# Cards in order

What all cards have in common, however they came about, is stated for a card with its live layout
and, as the pages of carousels are cards, for all pages kept: the board is sound, nodes differ in
number and path, the tree shows the outline together with the bitmaps and pages there are, and
images and carousels have the constraints that what is known about them asks for. Every rendering
makes such a card.
-/
namespace MessageCard
namespace Card

variable {σ : Type}

/-- A node of a tree shows a node of the outline, with the bitmaps given and the pages that the card
keeps. -/
structure ShowsNode (c : Card σ) (images : Table Nat LoadedImage) (t : LayoutNode)
    (n : OutlineNode) : Prop where
  id_eq : t.id = n.id
  path_eq : t.path = n.path
  hidden_eq : t.hidden = n.hidden
  content : n.hidden = false →
    ∃ solution m, t.content = Drawing.content ⟨solution, m, images, c.strip?⟩ n
  blank : n.hidden = true → t.IsBlank

/-- The images of an outline have the constraints that some sizes of bitmaps ask for, and the
carousels the height of the pages that the card keeps. -/
structure Suits (c : Card σ) (root : OutlineNode) (sheet : Sheet) : Prop where
  images : ∀ n ∈ root.nodes, n.hidden = false → ∀ i, n.slot = .image i → ∃ sizes,
    sheet.ofOwner (.image n.id) = Rules.image n.id n.view i sizes c.settings.displayScale
  carousels : ∀ n ∈ root.nodes, n.hidden = false → n.view.height.isFixed = false →
    ∀ spacing extent, n.slot = .carousel spacing extent →
    ∀ state, c.carousel? n.path = some state → sheet.ofOwner (.carousel n.id) =
      [Rules.carouselHeight n.id (pagesExtent spacing state.pages).height]

/-- A carousel that is shown has pages that the card keeps. -/
def KeepsPagesOf (c : Card σ) (n : OutlineNode) : Prop :=
  n.hidden = false → ∀ spacing extent, n.slot = .carousel spacing extent →
    ∃ state, c.carousel? n.path = some state

variable [RelationSolver σ]

/-- What holds of every layout that a card keeps alive. -/
structure IsLaidOut (c : Card σ) (l : LiveLayout σ) : Prop where
  sound : l.measured.board.IsSound
  solved : l.measured.board.system.IsSolved
  ids : (l.root.nodes.map (·.id)).Nodup
  paths : (l.root.nodes.map (·.path)).Nodup
  shows : List.Forall₂ (c.ShowsNode l.images) l.tree.nodes l.root.nodes
  placements : ∀ m strip?, l.tree.placements =
    (Drawing.tree ⟨⟨l.measured.board.system.values⟩, m, l.images, strip?⟩ l.root).placements
  suits : c.Suits l.root l.measured.board.sheet
  keepsPages : ∀ n ∈ l.root.nodes, c.KeepsPagesOf n
  /-- For a node that is hidden no pages are kept. -/
  dropsPages : ∀ n ∈ l.root.nodes, n.hidden = true → c.carousel? n.path = none
  regular : ∀ n ∈ l.root.nodes, n.IsRegular
  /-- Nothing in force mentions a node that is hidden. -/
  mentions : MentionOnly l.root.Shows l.measured.board.sheet.constraints

/-- Nodes of one layout with the same number are the same. -/
theorem IsLaidOut.eq_of_id {c : Card σ} {l : LiveLayout σ} (h : c.IsLaidOut l) {k n : OutlineNode}
    (hk : k ∈ l.root.nodes) (hn : n ∈ l.root.nodes) (hid : k.id = n.id) : k = n :=
  List.inj_on_of_nodup_map h.ids hk hn hid

/-- Nodes of one layout with different numbers have different paths. -/
theorem IsLaidOut.path_ne {c : Card σ} {l : LiveLayout σ} (h : c.IsLaidOut l) {k n : OutlineNode}
    (hk : k ∈ l.root.nodes) (hn : n ∈ l.root.nodes) (hid : k.id ≠ n.id) : n.path ≠ k.path := by
  intro hpath
  have hsame : k = n := List.inj_on_of_nodup_map h.paths hk hn hpath.symm
  exact hid (congrArg _ hsame)

/-- What holds of every card that comes about: of its own layout, and of all pages it keeps. -/
inductive IsKept : Card σ → Prop
  | intro {c : Card σ}
      (previous : ∀ key (state : CarouselState (Card σ)),
        c.carousels.previous.find? key = some state →
        ∀ (i : Nat) (p : Card σ), state.pages[i]? = some p → IsKept p)
      (current : ∀ key (state : CarouselState (Card σ)),
        c.carousels.current.find? key = some state →
        ∀ (i : Nat) (p : Card σ), state.pages[i]? = some p → IsKept p)
      (live : ∀ l, c.live = some l → c.IsLaidOut l) : IsKept c

theorem IsKept.pages {c : Card σ} (h : c.IsKept) : c.carousels.AllPages fun _ _ => IsKept := by
  cases h with
  | intro previous current live => exact ⟨previous, current⟩

theorem IsKept.isLaidOut {c : Card σ} (h : c.IsKept) {l : LiveLayout σ} (hl : c.live = some l) :
    c.IsLaidOut l := by
  cases h with
  | intro previous current live => exact live l hl

theorem IsKept.of {c : Card σ} (hpages : c.carousels.AllPages fun _ _ => IsKept)
    (hlive : ∀ l, c.live = some l → c.IsLaidOut l) : c.IsKept :=
  .intro hpages.previous hpages.current hlive

/-- A page that a card shows is kept. -/
theorem IsKept.page {c p : Card σ} (h : c.IsKept) {path : String}
    {state : CarouselState (Card σ)} (hstate : c.carousel? path = some state)
    (hp : p ∈ state.pages) : p.IsKept := by
  obtain ⟨i, hi⟩ := List.getElem?_of_mem hp
  exact h.pages.get hstate hi

/-! ## Layouts that were settled -/

theorem Suits.remeasured {c : Card σ} {root : OutlineNode} {b t : Board σ}
    (h : c.Suits root b.sheet) {nodes : List OutlineNode} (hbt : b.IsRemeasured nodes t) :
    c.Suits root t.sheet := by
  constructor
  · intro n hn hshown i hi
    obtain ⟨sizes, hsizes⟩ := h.images n hn hshown i hi
    exact ⟨sizes, (hbt.ofOwner _ fun k he => by cases he).trans hsizes⟩
  · intro n hn hshown hflexible spacing extent hslot state hstate
    exact (hbt.ofOwner _ fun k he => by cases he).trans
      (h.carousels n hn hshown hflexible spacing extent hslot state hstate)

/-- Measuring texts mentions nodes that are shown. -/
theorem mentionOnly_remeasured {root : OutlineNode} {b t : Board σ}
    (h : MentionOnly root.Shows b.sheet.constraints) (hbt : b.IsRemeasured root.nodes t) :
    MentionOnly root.Shows t.sheet.constraints := by
  intro x hx
  rcases hbt.added x hx with hx | ⟨n, hn, hshown, height, rfl⟩
  · exact h x hx
  · exact Constraint.mentionsOnly_fixed.mpr ⟨n, hn, hshown, rfl⟩

/-- A layout is in order when it was settled on a board that suits its outline. -/
theorem isLaidOut_of_settled {c : Card σ} {m : TextMeasurer} {root : OutlineNode}
    {images : Table Nat LoadedImage} {start : Measured σ} {l : LiveLayout σ}
    (hl : l.IsSettled m c.strip? root images start) (hids : (root.nodes.map (·.id)).Nodup)
    (hpaths : (root.nodes.map (·.path)).Nodup) (hsuits : c.Suits root start.board.sheet)
    (hpages : ∀ n ∈ root.nodes, c.KeepsPagesOf n)
    (hdropped : ∀ n ∈ root.nodes, n.hidden = true → c.carousel? n.path = none)
    (hregular : ∀ n ∈ root.nodes, n.IsRegular)
    (hmentions : MentionOnly root.Shows start.board.sheet.constraints) : c.IsLaidOut l := by
  obtain ⟨rfl, rfl, hremeasured, hsolved, htree, -⟩ := hl
  refine ⟨hremeasured.sound, hsolved, hids, hpaths, ?_, fun m' strip? => ?_,
    hsuits.remeasured hremeasured, hpages, hdropped, hregular,
    mentionOnly_remeasured hmentions hremeasured⟩
  · rw [htree]
    refine List.Forall₂.imp (fun t n h => ?_) (Drawing.forall₂_tree _ l.root)
    exact ⟨h.id_eq, h.path_eq, h.hidden_eq, fun _ => ⟨_, m, h.content_eq⟩, h.isBlank⟩
  · rw [htree]
    have hsame : ∀ i, (⟨l.measured.board.system.values⟩ : Solution).unknown i =
        (⟨l.measured.board.system.values⟩ : Solution).unknown i := fun _ => rfl
    exact Drawing.placements_tree (d := ⟨_, m, l.images, c.strip?⟩)
      (e := ⟨_, m', l.images, strip?⟩) hsame l.root

/-- Settling again is always possible. -/
theorem exists_resettle (c : Card σ) (l : LiveLayout σ) {board : Board σ} (h : board.IsSound)
    (images : Table Nat LoadedImage) :
    ∃ t, c.resettle l board images = .ok { c with live := some t } ∧
      t.IsSettled c.settings.measurer c.strip? l.root images { l.measured with board } := by
  have hstart : ({ l.measured with board } : Measured σ).board.IsSound := h
  obtain ⟨t, ht, hsettled⟩ := exists_settle c.settings c.strip? l.root images hstart
  refine ⟨t, ?_, hsettled⟩
  rw [resettle, ht]
  rfl

/-! ## Rendering -/

theorem isKept_new (s : LayoutSettings) : (new s : Card σ).IsKept :=
  .of CarouselCache.allPages_empty fun _ h => by cases h

theorem IsKept.cleared {c : Card σ} (h : c.IsKept) : c.cleared.IsKept :=
  .of h.pages fun _ hl => by cases hl

/-- Another width changes nothing about the layout there is. -/
theorem IsKept.withMaxWidth {c : Card σ} (h : c.IsKept) (maxWidth : Binary64) :
    (c.withMaxWidth maxWidth).IsKept := by
  refine .of h.pages fun l hl => ?_
  obtain ⟨hsound, hsolved, hids, hpaths, hshows, hplacements, ⟨himages, hcarousels⟩, hpages,
    hdropped, hregular, hmentions⟩ := h.isLaidOut hl
  refine ⟨hsound, hsolved, hids, hpaths, ?_, hplacements, ⟨himages, hcarousels⟩, hpages, hdropped,
    hregular, hmentions⟩
  exact hshows.imp fun t n hn => ⟨hn.id_eq, hn.path_eq, hn.hidden_eq, hn.content, hn.blank⟩

section Finish

variable {s : LayoutSettings} {sizes : ImageSizes} {identity : CardIdentity} {items : List Item}
  {cs : CarouselCache (Card σ)}

variable (s sizes identity items cs) in
/-- The images of a body have the constraints that the sizes known ask for. -/
theorem ofOwner_image_bodyOutline {n : OutlineNode}
    (hn : n ∈ (bodyOutline s sizes identity items cs).nodes) (hshown : n.hidden = false)
    {i : ImageSlot} (hslot : n.slot = .image i) :
    (Sheet.editAll [] (Rules.ofCard sizes s.displayScale
      (bodyOutline s sizes identity items cs))).ofOwner (.image n.id) =
        Rules.image n.id n.view i sizes s.displayScale := by
  rw [Rules.ofOwner_ofCard (o := .image n.id) (by simp) (isRegular_bodyOutline s sizes identity
    items cs) (nodup_ids_bodyOutline s sizes identity items cs) hn hshown rfl, hslot]
  simp [Rules.content, List.flatMap_map, Instruction.given]

/-- The constraints of a body suit its outline and the pages kept for it. -/
theorem suits_bodyOutline {c : Card σ} (hscale : c.settings.displayScale = s.displayScale)
    (hkept : ∀ path, c.carousel? path = (arrangeAll s sizes identity (bodySiblings s sizes items)
      items 0 1 cs).2.get? ⟨identity, path⟩) :
    c.Suits (bodyOutline s sizes identity items cs) (Sheet.editAll []
      (Rules.ofCard sizes s.displayScale (bodyOutline s sizes identity items cs))) := by
  constructor
  · intro n hn hshown i hi
    exact ⟨sizes, hscale ▸ ofOwner_image_bodyOutline s sizes identity items cs hn hshown hi⟩
  · intro n hn hshown hflexible spacing extent hslot state hstate
    obtain ⟨state', hstate', rfl⟩ := showsKept_bodyOutline items cs n hn hshown spacing extent hslot
    have hsame : state' = state := by
      rw [hkept, hstate'] at hstate
      exact Option.some.inj hstate
    rw [Rules.ofOwner_ofCard (o := .carousel n.id) (by simp) (isRegular_bodyOutline s sizes identity
      items cs) (nodup_ids_bodyOutline s sizes identity items cs) hn hshown rfl, hslot,
      Rules.content, Rules.carousel, hflexible, hsame, List.flatMap_append]
    split <;> simp [Instruction.given]

end Finish

/-- The layout of what was arranged can be settled, on a board with the constraints of its outline. -/
theorem exists_finish (c : Card σ) (identity : CardIdentity) (sizes : ImageSizes)
    (arranged : List OutlineNode × CarouselCache (Card σ)) :
    ∃ (l : LiveLayout σ) (board : Board σ),
      c.finish identity sizes arranged =
        (⟨c.settings, identity, arranged.2.endPass, some l⟩, .ok l.tree) ∧
      board.IsSound ∧ board.sheet = Sheet.editAll []
        (Rules.ofCard sizes c.settings.displayScale (rootNode c.settings arranged.1)) ∧
      l.IsSettled c.settings.measurer
        (strip? ⟨c.settings, identity, arranged.2.endPass, none⟩)
        (rootNode c.settings arranged.1)
        ((c.live.filter fun _ => c.identity = identity).elim .empty
          (carriedImages · (rootNode c.settings arranged.1)))
        ⟨board, (rootNode c.settings arranged.1).expectedHeights⟩ := by
  obtain ⟨children, carousels⟩ := arranged
  dsimp only
  generalize hroot : rootNode c.settings children = root
  obtain ⟨board, hboard, hsound, hsheet⟩ := Board.isSound_empty.exists_run (σ := σ)
    (Rules.ofCard sizes c.settings.displayScale root)
  have hstart : (⟨board, root.expectedHeights⟩ : Measured σ).board.IsSound := hsound
  obtain ⟨l, hl, hsettled⟩ := exists_settle c.settings
    (strip? ⟨c.settings, identity, carousels.endPass, none⟩) root
    ((c.live.filter fun _ => c.identity = identity).elim .empty (carriedImages · root)) hstart
  refine ⟨l, board, ?_, hsound, hsheet, hsettled⟩
  unfold finish
  dsimp only
  rw [hroot, hboard]
  dsimp only [bind, Except.bind]
  rw [hl]

/-- A body is always laid out: its outline is settled on a board with the constraints for it. -/
theorem exists_settled_renderBody (c : Card σ) (sizes : ImageSizes) (identity : CardIdentity)
    (items : List Item) : ∃ (l : LiveLayout σ) (board : Board σ),
      let arranged := arrangeAll c.settings sizes identity (bodySiblings c.settings sizes items)
        items 0 1 c.carousels.beginPass
      let root := bodyOutline c.settings sizes identity items c.carousels.beginPass
      c.renderBody sizes identity items =
        (⟨c.settings, identity, arranged.2.endPass, some l⟩, .ok l.tree) ∧
      board.IsSound ∧
      board.sheet = Sheet.editAll [] (Rules.ofCard sizes c.settings.displayScale root) ∧
      l.IsSettled c.settings.measurer (strip? ⟨c.settings, identity, arranged.2.endPass, none⟩) root
        ((c.live.filter fun _ => c.identity = identity).elim .empty (carriedImages · root))
        ⟨board, root.expectedHeights⟩ :=
  exists_finish c identity sizes _

/-- A body is always laid out, with its outline. -/
theorem exists_renderBody (c : Card σ) (sizes : ImageSizes) (identity : CardIdentity)
    (items : List Item) : ∃ l : LiveLayout σ,
      c.renderBody sizes identity items =
        (⟨c.settings, identity, (arrangeAll c.settings sizes identity
          (bodySiblings c.settings sizes items) items 0 1 c.carousels.beginPass).2.endPass, some l⟩,
          .ok l.tree) ∧
      l.root = bodyOutline c.settings sizes identity items c.carousels.beginPass := by
  obtain ⟨l, board, hrendered, -, -, hsettled⟩ := exists_settled_renderBody c sizes identity items
  exact ⟨l, hrendered, hsettled.root_eq⟩

/-- A template that was rendered: the card shows its body, with the bitmaps that it could keep. -/
theorem exists_renderPage (c : Card σ) (identity : CardIdentity) (sizes : ImageSizes) (version : Int)
    (items : List Item) (hversion : supportedVersions.contains version = true) :
    ∃ (l : LiveLayout σ) (board : Board σ),
      (renderPage sizes identity ⟨version, some items⟩ c).1 =
        ⟨c.settings, identity, (arrangeAll c.settings sizes identity
          (bodySiblings c.settings sizes items) items 0 1 c.carousels.beginPass).2.endPass, some l⟩ ∧
      board.sheet = Sheet.editAll [] (Rules.ofCard sizes c.settings.displayScale
        (bodyOutline c.settings sizes identity items c.carousels.beginPass)) ∧
      board.IsRemeasured l.root.nodes l.measured.board ∧
      l.root = bodyOutline c.settings sizes identity items c.carousels.beginPass ∧
      l.images = (c.live.filter fun _ => c.identity = identity).elim .empty
        (carriedImages · l.root) := by
  obtain ⟨l, board, hrendered, -, hsheet, hsettled⟩ :=
    exists_settled_renderBody c sizes identity items
  refine ⟨l, board, ?_, hsheet, hsettled.root_eq ▸ hsettled.remeasured, hsettled.root_eq, ?_⟩
  · rw [← render, render_eq_renderBody sizes identity version items c hversion, hrendered]
  · rw [hsettled.images_eq, hsettled.root_eq]

/-- After a rendering a card shows its result, and nothing if there is none. -/
theorem tree?_renderPage (sizes : ImageSizes) (identity : CardIdentity) (t : TemplateOf Item)
    (c : Card σ) :
    (renderPage sizes identity t c).1.tree? = (renderPage sizes identity t c).2.toOption := by
  obtain ⟨version, _ | items⟩ := t
  · rw [renderPage]
    rfl
  · cases hversion : supportedVersions.contains version with
    | true =>
      obtain ⟨l, hrendered, -⟩ := exists_renderBody c sizes identity items
      rw [← render, render_eq_renderBody sizes identity version items c hversion, hrendered]
      rfl
    | false =>
      rw [renderPage, hversion]
      rfl

/-- Why a template cannot be laid out, if it cannot. -/
def fault? (t : TemplateOf Item) : Option LayoutError :=
  if t.isSupported = false then some (.unsupportedVersion t.version)
  else if t.body.isNone then some .noBody
  else none

/-- Rendering fails with the fault of the template, and with nothing else. -/
theorem renderPage_eq_error_iff (sizes : ImageSizes) (identity : CardIdentity) (t : TemplateOf Item)
    (c : Card σ) (e : LayoutError) :
    (renderPage sizes identity t c).2 = .error e ↔ fault? t = some e := by
  obtain ⟨version, _ | items⟩ := t
  · rw [renderPage, fault?, TemplateOf.isSupported]
    cases supportedVersions.contains version <;> simp
  · cases hversion : supportedVersions.contains version with
    | true =>
      obtain ⟨l, hrendered, -⟩ := exists_renderBody c sizes identity items
      rw [← render, render_eq_renderBody sizes identity version items c hversion, hrendered, fault?,
        TemplateOf.isSupported, hversion]
      simp
    | false =>
      rw [renderPage, fault?, TemplateOf.isSupported, hversion]
      simp

/-- A template without a fault is laid out. -/
theorem exists_render_ok (c : Card σ) (sizes : ImageSizes) (identity : CardIdentity) {t : Template}
    (ht : fault? t = none) : ∃ tree, (c.render sizes identity t).2 = .ok tree := by
  cases h : (c.render sizes identity t).2 with
  | ok tree => exact ⟨tree, rfl⟩
  | error e =>
    have hfault := (renderPage_eq_error_iff sizes identity t c e).mp h
    rw [ht] at hfault
    cases hfault

/-- The card with the layout of a body is in order, if all pages are. -/
theorem isKept_renderBody {c : Card σ} {identity : CardIdentity} {sizes : ImageSizes}
    {items : List Item}
    (hpages : (arrangeAll c.settings sizes identity (bodySiblings c.settings sizes items) items 0 1
      c.carousels.beginPass).2.AllPages fun _ _ => IsKept) :
    (c.renderBody sizes identity items).1.IsKept := by
  let cs := c.carousels.beginPass
  obtain ⟨l, board, hrendered, -, hsheet, hsettled⟩ :=
    exists_settled_renderBody c sizes identity items
  rw [hrendered]
  refine .of hpages.endPass fun t ht => ?_
  cases ht
  refine isLaidOut_of_settled hsettled (nodup_ids_bodyOutline c.settings sizes identity items cs)
    (nodup_paths_bodyOutline c.settings sizes identity items cs) ?_ (fun n hn hshown => ?_)
    (fun n hn hhidden => get?_of_hidden hn hhidden fun _ => rfl)
    (isRegular_bodyOutline c.settings sizes identity items cs) ?_
  · rw [hsheet]
    exact suits_bodyOutline rfl fun path => rfl
  · intro spacing extent hslot
    obtain ⟨state, hstate, -⟩ := showsKept_bodyOutline items cs n hn hshown spacing extent hslot
    exact ⟨state, hstate⟩
  · rw [hsheet]
    exact Sheet.mentionOnly_editAll mentionOnly_nil (Rules.mentionOnly_ofCard _ _ rfl)

/-! ## Rendering keeps pages in order -/

theorem survivesRendering_isKept : SurvivesRendering fun _ => IsKept (σ := σ) where
  pages h := h.pages
  fresh _ _ _ _ := isKept_new _
  withMaxWidth h width := h.withMaxWidth width
  cleared h := h.cleared
  body _ _ _ {_ _} _ hpages := isKept_renderBody hpages

end Card
end MessageCard
