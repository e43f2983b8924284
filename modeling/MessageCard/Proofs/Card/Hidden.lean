import MessageCard.Proofs.Card.Requests
import MessageCard.Proofs.Svg.Visible

/-!
# Hidden nodes are of no account

What has to give way among the items of a box is hidden, with all that is in it. The outline still
has its nodes, but nothing comes of them: no constraint mentions their frames, no page is claimed or
built for a carousel among them, the layout shows nothing at them, no bitmap is asked for or taken,
and of a drawing they are at most the outlines of their frames.
-/
namespace MessageCard

/-! ## Hidden nodes of an outline -/

/-- The number of a hidden node is that of no node that is shown. -/
theorem OutlineNode.not_shows {root n : OutlineNode} (hids : (root.nodes.map (·.id)).Nodup)
    (hn : n ∈ root.nodes) (hhidden : n.hidden = true) : ¬root.Shows n.id := by
  rintro ⟨k, hk, hshown, hid⟩
  obtain rfl : k = n := List.inj_on_of_nodup_map hids hk hn hid
  exact absurd (hhidden.symm.trans hshown) (by simp)

/-- Constraints that mention nodes that are shown do not mention a hidden one. -/
theorem MentionOnly.ne_of_hidden {root n : OutlineNode} {cs : List Constraint}
    (h : MentionOnly root.Shows cs) (hids : (root.nodes.map (·.id)).Nodup) (hn : n ∈ root.nodes)
    (hhidden : n.hidden = true) : ∀ x ∈ cs, ∀ f ∈ x.frames, f.node ≠ n.id := by
  intro x hx f hf hid
  exact root.not_shows hids hn hhidden (hid ▸ h x hx f hf)

/-- The way to an image as it is seen from the card where another way begins that leads to its
card. -/
def ImageRoute.after (r : ImageRoute) (way : List (Nat × Nat)) : ImageRoute :=
  ⟨way ++ r.hops, r.node⟩

namespace Card

variable {σ : Type} [RelationSolver σ]

variable (s : LayoutSettings) (sizes : ImageSizes) (identity : CardIdentity) in
/-- An item is hidden when its box is, or when it has to give way to another item of the box. -/
theorem exists_getElem?_arrangeAll (siblings : Siblings) (items : List Item) (index id : Nat)
    (cs : CarouselCache (Card σ)) {i : Nat} {item : Item} (h : items[i]? = some item) :
    ∃ n, (arrangeAll s sizes identity siblings items index id cs).1[i]? = some n ∧
      n.hidden = (siblings.hidden || siblings.plan.hides siblings.axis (index + i) item) := by
  induction items generalizing index id cs i with
  | nil => cases h
  | cons first rest ih =>
    rw [arrangeAll_cons]
    cases i with
    | zero =>
      cases h
      obtain ⟨slot, children, hnode⟩ :=
        exists_arrange s sizes identity item (siblings.place id index item) cs
      exact ⟨_, rfl, by rw [hnode]; rfl⟩
    | succ i =>
      obtain ⟨n, hget, hhidden⟩ := ih (index + 1) (id + first.count)
        (arrange s sizes identity first (siblings.place id index first) cs).2 h
      exact ⟨n, hget, by rw [hhidden, Nat.add_assoc, Nat.add_comm 1]⟩

/-! ## Hidden nodes of a card -/

/-- A node of the layout of a card is of no account: all below it is hidden, no constraint in force
mentions its frames, no page is kept for it, and the layout shows nothing at it. -/
structure IsInert (c : Card σ) (l : LiveLayout σ) (n : OutlineNode) : Prop where
  below : ∀ k ∈ n.nodes, k.hidden = true
  unmentioned : ∀ p ∈ l.measured.board.system.present, ∀ f ∈ p.2.frames, f.node ≠ n.id
  dropped : c.carousel? n.path = none
  blank : ∀ t ∈ l.tree.nodes, t.id = n.id → t.hidden = true ∧ t.IsBlank

/-- On a card in order hidden nodes are of no account. -/
theorem IsLaidOut.isInert {c : Card σ} {l : LiveLayout σ} (h : c.IsLaidOut l) {n : OutlineNode}
    (hn : n ∈ l.root.nodes) (hhidden : n.hidden = true) : c.IsInert l n where
  below _ hk := OutlineNode.hidden_of_mem_nodes h.regular hn hhidden hk
  unmentioned p hp := by
    have hmem : p.2 ∈ l.measured.board.sheet.constraints :=
      (Board.constraints_sheet _).mem_iff.mpr (List.mem_map_of_mem hp)
    exact h.mentions.ne_of_hidden h.ids hn hhidden p.2 hmem
  dropped := h.dropsPages n hn hhidden
  blank t ht hid := by
    obtain ⟨k, hk, hshows⟩ := (exists_of_forall₂ h.shows).1 t ht
    obtain rfl : k = n := h.eq_of_id hk hn (hshows.id_eq.symm.trans hid)
    exact ⟨hshows.hidden_eq.trans hhidden, hshows.blank hhidden⟩

theorem IsLaidOut.shownNode?_eq_none {c : Card σ} {l : LiveLayout σ} (h : c.IsLaidOut l)
    (hl : c.live = some l) {n : OutlineNode} (hn : n ∈ l.root.nodes) (hhidden : n.hidden = true) :
    c.shownNode? n.id = none := by
  rw [shownNode?, h.node?_eq hl hn]
  simp [hhidden]

/-- Where a way begins at no node that is shown, no bitmap is taken along it. -/
theorem acceptAt_eq_none {c : Card σ} {r : ImageRoute} (h : c.shownNode? r.firstNode = none)
    (sizes : ImageSizes) (url : String) (bitmap : Bitmap) :
    acceptAt sizes r.node url bitmap r.hops c = none := by
  obtain ⟨hops, node⟩ := r
  cases hops with
  | nil =>
    have hnode : c.shownNode? node = none := h
    cases hl : c.live <;> simp [acceptAt, acceptHere, hl, hnode]
  | cons hop hops =>
    have hnode : c.shownNode? hop.1 = none := h
    simp [acceptAt, shownCarousel?, hnode]

/-- What is not taken on a card is not taken on a card around it. -/
theorem acceptAt_after_eq_none {c d : Card σ} {r : ImageRoute} {sizes : ImageSizes} {url : String}
    {bitmap : Bitmap} {way : List (Nat × Nat)} (hd : c.cardAt? way = some d)
    (h : acceptAt sizes r.node url bitmap r.hops d = none) :
    acceptAt sizes r.node url bitmap (way ++ r.hops) c = none := by
  induction way generalizing c with
  | nil =>
    cases hd
    exact h
  | cons hop way ih =>
    obtain ⟨state, inner, hstate, hinner, hrest⟩ := exists_of_cardAt?_cons hd
    simp [acceptAt, hstate, hinner, ih hrest]

/-- In every outline of a body what is below a hidden item is hidden, and no constraint that is
added for the body mentions a frame of a hidden node; while it is arranged a hidden item claims and
builds no pages. On every card that comes about, and on all its pages, hidden nodes are of no
account, no request goes to or through one of them and no bitmap is taken there. At a hidden node
nothing is drawn but the outline of its frame, and so a layout is drawn like what is visible of
it. -/
theorem hidden_nodes_are_inert {c : Card σ} (hc : c.Reachable) :
    (∀ s sizes identity items (cs : CarouselCache (Card σ)),
      ∀ n ∈ (bodyOutline s sizes identity items cs).nodes, n.hidden = true →
        (∀ k ∈ n.nodes, k.hidden = true) ∧
        ∀ i ∈ Rules.ofCard sizes s.displayScale (bodyOutline s sizes identity items cs),
          ∀ x ∈ i.added, ∀ f ∈ x.frames, f.node ≠ n.id) ∧
    (∀ s sizes identity item place (cs : CarouselCache (Card σ)),
      (arrange s sizes identity item place cs).1.hidden = true →
      (arrange s sizes identity item place cs).2 = cs) ∧
    (∀ way d l, c.cardAt? way = some d → d.live = some l → ∀ n ∈ l.root.nodes, n.hidden = true →
      d.IsInert l n ∧ ∀ route : ImageRoute, route.firstNode = n.id →
        (∀ r ∈ c.requests, r.route ≠ route.after way) ∧
        ∀ sizes identity url bitmap, c.accept sizes identity (route.after way) url bitmap = none) ∧
    (∀ (ink : Svg.Ink) (n : LayoutNode) defs, n.hidden = true →
      Svg.drawNode ink n defs = (ink.outline n, defs) ∧
      (ink.settings.outlines = false → ink.outline n = [])) ∧
    ∀ settings theme appearance tree,
      Svg.draw settings theme appearance (Svg.visible settings.outlines tree) =
        Svg.draw settings theme appearance tree := by
  refine ⟨fun s sizes identity items cs n hn hhidden => ⟨fun k hk => ?_, fun i hi x hx => ?_⟩,
    fun s sizes identity item place cs hhidden => ?_, fun way d l hd hl n hn hhidden => ?_,
    fun ink n defs hhidden => ⟨Svg.drawNode_of_hidden ink hhidden defs,
      fun houtlines => Svg.outline_eq_nil ink houtlines n⟩, Svg.draw_visible⟩
  · exact OutlineNode.hidden_of_mem_nodes (isRegular_bodyOutline s sizes identity items cs) hn
      hhidden hk
  · have hroot : (bodyOutline s sizes identity items cs).hidden = false := rfl
    exact (Rules.mentionOnly_ofCard sizes s.displayScale hroot).ne_of_hidden
      (nodup_ids_bodyOutline s sizes identity items cs) hn hhidden x
      (List.mem_flatMap.mpr ⟨i, hi, hx⟩)
  · obtain ⟨slot, children, hnode⟩ := exists_arrange s sizes identity item place cs
    rw [hnode] at hhidden
    exact arrange_of_hidden item place cs hhidden
  · have hlaid := (hc.isKept.of_cardAt? hd).isLaidOut hl
    refine ⟨hlaid.isInert hn hhidden, fun route hroute => ?_⟩
    have hnode : d.shownNode? route.firstNode = none :=
      hroute ▸ hlaid.shownNode?_eq_none hl hn hhidden
    have hrefused : ∀ sizes identity url bitmap,
        c.accept sizes identity (route.after way) url bitmap = none := by
      intro sizes identity url bitmap
      unfold accept
      split
      · exact acceptAt_after_eq_none hd (acceptAt_eq_none hnode sizes url bitmap)
      · rfl
    refine ⟨fun r hr hroute => ?_, hrefused⟩
    obtain ⟨a, ha, -⟩ := exists_accept hc.isKept hr .empty ⟨⟨⟨1, 1⟩, 0⟩, []⟩
    rw [hroute, hrefused] at ha
    cases ha

/-- A row whose text leaves no room for the image after it. -/
theorem hidden_nodes_are_inert_of_crowded :
    let view : View := { View.plain with width := .fixed 40 }
    let image : Item := .image false ⟨View.plain, "a", .aspectFit, none, none⟩
    let row : Item := .box view .row
      [.text false ⟨View.plain, "a text of many characters", 0, .plain, .topLeft⟩, image] .topLeft
    let c : Card (Linear.Tableau .exact) := ((new {}).render .empty ⟨"m", 1⟩ ⟨1, some [row]⟩).1
    c.Reachable ∧ ∃ l n, c.live = some l ∧ n ∈ l.root.nodes ∧ n.hidden = true ∧ c.IsInert l n ∧
      ∀ r ∈ c.requests, r.route.firstNode ≠ n.id := by
  intro view image row c
  let items : List Item :=
    [.text false ⟨View.plain, "a text of many characters", 0, .plain, .topLeft⟩, image]
  let place := (bodySiblings {} .empty [row]).place 1 0 row
  let siblings := place.siblings {} .empty view .row items
  have hc : c.Reachable := .render (.new {}) _ _ _
  obtain ⟨l, board, hrendered, -, -, hroot, -⟩ :=
    (new {} : Card (Linear.Tableau .exact)).exists_renderPage ⟨"m", 1⟩ .empty 1 [row] rfl
  have hl : c.live = some l := by rw [show c = _ from hrendered]
  let cs := (new {} : Card (Linear.Tableau .exact)).carousels.beginPass
  obtain ⟨n, hget, hhidden⟩ := exists_getElem?_arrangeAll {} .empty ⟨"m", 1⟩ siblings items 0 2 cs
    (i := 1) rfl
  have hgives : siblings.plan.hides siblings.axis 1 image = true := by decide +kernel
  have hhidden : n.hidden = true := by simp [hhidden, hgives]
  have hbox : (arrange {} .empty ⟨"m", 1⟩ row place cs).1 ∈
      (bodyOutline {} .empty ⟨"m", 1⟩ [row] cs).children := by
    rw [bodyOutline, arrangeAll_cons]
    exact List.mem_cons_self
  have hn : n ∈ (arrange {} .empty ⟨"m", 1⟩ row place cs).1.children := by
    rw [arrange_box]
    exact List.mem_of_getElem? hget
  have hmem : n ∈ l.root.nodes := by
    rw [hroot]
    exact OutlineNode.mem_nodes_of_mem_children hn
      (OutlineNode.mem_nodes_of_mem_children hbox (OutlineNode.self_mem_nodes _))
  obtain ⟨hinert, hrefused⟩ := (hidden_nodes_are_inert hc).2.2.1 [] c l rfl hl n hmem hhidden
  exact ⟨hc, l, n, hl, hmem, hhidden, hinert,
    fun r hr hfirst => (hrefused r.route hfirst).1 r hr rfl⟩

end Card
end MessageCard
