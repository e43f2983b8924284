import MessageCard.Proofs.Card.Requests
import MessageCard.Proofs.Constraint.Ideal

/-!
# Bitmaps that arrive unannounced

A card does not announce a bitmap when its slot keeps to minimal lengths and its document states a
size. The constraints of the slot are then what they were exactly if each side that wraps would like
to have the length that it liked before: a bitmap of another size than the one stated moves them.
Where they are what they were, frames stay where they were, on the card and on all pages of its
carousels, as long as the constraints leave the solver no choice and texts are as high as expected.
-/
namespace MessageCard

/-! ## What an image slot would like -/

/-- The length that a side would like to have, by the pixels of a bitmap. -/
def Size.wish? (s : Size) (scale : Binary64) (pixels : Option Nat) : Option Rat :=
  if s.isWrap then pixels.map fun p => ((p : Binary64) / scale).value else none

/-- The width and the height that a slot would like to have, by what is known about its bitmap. -/
def ImageSlot.wishes (i : ImageSlot) (view : View) (sizes : ImageSizes) (scale : Binary64) :
    Option Rat × Option Rat :=
  let known := (sizes.known i.url i.pixels).filter (·.ratio.isSome)
  (view.width.wish? scale (known.map (·.width)), view.height.wish? scale (known.map (·.height)))

theorem ImageSlot.wishes_of_not_wrap {view : View} (hwidth : view.width.isWrap = false)
    (hheight : view.height.isWrap = false) (i : ImageSlot) (sizes : ImageSizes)
    (scale : Binary64) : i.wishes view sizes scale = (none, none) := by
  simp [wishes, Size.wish?, hwidth, hheight]

namespace Rules

variable {node : Nat} {view : View} {i : ImageSlot}

/-- A slot that keeps to minimal lengths asks for these and for the lengths that it would like. -/
theorem image_of_minimum (h : SizingPolicy.of view.width view.height i.mode = .minimum)
    (sizes : ImageSizes) (scale : Binary64) :
    image node view i sizes scale =
      [.notBelow ((Frame.content node).at .width) 1 .low,
        .notBelow ((Frame.content node).at .height) 1 .low] ++
      (i.wishes view sizes scale).1.toList.map
        (Constraint.fixed ((Frame.content node).at .width) · .low) ++
      (i.wishes view sizes scale).2.toList.map
        (Constraint.fixed ((Frame.content node).at .height) · .low) := by
  unfold image ImageSlot.wishes Size.wish?
  dsimp only
  generalize (sizes.known i.url i.pixels).filter (·.ratio.isSome) = known
  have hsizing : Sizing.of view.width view.height i.mode known = .minimum := by
    simp [Sizing.of, h]
  rw [hsizing]
  cases known with
  | none => simp
  | some p => cases view.width.isWrap <;> cases view.height.isWrap <;> simp

/-- The constraints of such a slot tell what it would like. -/
theorem image_eq_iff (h : SizingPolicy.of view.width view.height i.mode = .minimum)
    {sizes earlier : ImageSizes} {scale : Binary64} :
    image node view i sizes scale = image node view i earlier scale ↔
      i.wishes view sizes scale = i.wishes view earlier scale := by
  rw [image_of_minimum h, image_of_minimum h]
  generalize i.wishes view sizes scale = new, i.wishes view earlier scale = old
  obtain ⟨_ | a, _ | b⟩ := new <;> obtain ⟨_ | c, _ | d⟩ := old <;>
    simp [Constraint.fixed, Frame.at]

/-- An image insists on nothing. -/
theorem image_breakable (sizes : ImageSizes) (scale : Binary64) :
    ∀ c ∈ image node view i sizes scale, c.priority ≠ .required := by
  unfold image
  dsimp only
  generalize (sizes.known i.url i.pixels).filter (·.ratio.isSome) = known
  cases Sizing.of view.width view.height i.mode known <;> cases known <;>
    cases view.width.isWrap <;> cases view.height.isWrap <;>
    simp [Constraint.fixed, Constraint.notBelow, Constraint.proportional]

end Rules

namespace Card

variable {σ : Type}

/-! ## What a card shows along a way -/

/-- The constraints of an image slot. -/
def rulesAt? (c : Card σ) (route : ImageRoute) : Option (List Constraint) :=
  (c.cardAt? route.hops).bind fun holder => holder.live.map fun l =>
    l.measured.board.sheet.ofOwner (.image route.node)

/-- The frames of the card at the end of a way. -/
def placementsAt? (c : Card σ) (way : List (Nat × Nat)) :
    Option (Binary64 × Binary64 × List (Nat × Rect × Rect)) :=
  (c.cardAt? way).bind fun holder => holder.tree?.map (·.placements)

section Live

variable {c d : Card σ} {l t : LiveLayout σ}

/-- Cards with the same outline have the same nodes. -/
theorem shownNode?_congr (hc : c.live = some l) (hd : d.live = some t) (hroot : t.root = l.root)
    (id : Nat) : d.shownNode? id = c.shownNode? id := by
  rw [shownNode?, shownNode?, node?, node?, hc, hd, Option.bind_some, Option.bind_some, hroot]

/-- Cards with the same outline and the same carousels lead on alike. -/
theorem shownCarousel?_congr (hc : c.live = some l) (hd : d.live = some t)
    (hroot : t.root = l.root) (hcarousels : ∀ path, d.carousel? path = c.carousel? path)
    (carousel : Nat) : d.shownCarousel? carousel = c.shownCarousel? carousel := by
  simp only [shownCarousel?, shownNode?_congr hc hd hroot, hcarousels]

/-- Another layout with the same outline and frames changes no frame. -/
theorem placementsAt?_withLive (hc : c.live = some l) (hroot : t.root = l.root)
    (hframes : t.tree.placements = l.tree.placements) (way : List (Nat × Nat)) :
    placementsAt? ({ c with live := some t } : Card σ) way = c.placementsAt? way := by
  match way with
  | [] => simp [placementsAt?, cardAt?, tree?, hc, hframes]
  | (carousel, page) :: way =>
    have hcarousels := shownCarousel?_congr (d := { c with live := some t }) hc rfl hroot
      fun _ => rfl
    simp only [placementsAt?, cardAt?, hcarousels]

end Live

/-- A page with the extent of the one before it leaves the extent of all pages. -/
theorem pagesExtent_set {spacing : Binary64} {pages : List (Card σ)} {page : Nat}
    {inner card : Card σ} (hinner : pages[page]? = some inner)
    (h : card.placementsAt? [] = inner.placementsAt? []) :
    pagesExtent spacing (pages.set page card) = pagesExtent spacing pages := by
  have hmap : ∀ f : Card σ → Binary64, f card = f inner →
      (pages.set page card).map f = pages.map f := by
    intro f hf
    have hself : (pages.map f)[page]? = some (f inner) := by simp [hinner]
    obtain ⟨hlt, hget⟩ := List.getElem?_eq_some_iff.mp hself
    rw [List.map_set, hf, ← hget, List.set_getElem_self]
  have hsides : ∀ c : Card σ, c.tree?.elim 0 (·.width) = (c.placementsAt? []).elim 0 (·.1) ∧
      c.tree?.elim 0 (·.height) = (c.placementsAt? []).elim 0 (·.2.1) := by
    intro c
    cases hc : c.tree? <;> simp [placementsAt?, cardAt?, hc, LayoutOf.placements]
  have hwidth := hmap (fun c => c.tree?.elim 0 (·.width)) (by simp only [hsides, h])
  have hheight := hmap (fun c => c.tree?.elim 0 (·.height)) (by simp only [hsides, h])
  simp only [pagesExtent, List.map_map, Function.comp_def, hwidth, hheight]

variable [RelationSolver σ]

/-- A card whose layout has come to rest: its constraints leave the solver no choice, and every text
is as high as expected. -/
structure IsAtRest (c : Card σ) : Prop where
  determined : ∀ l, c.live = some l → l.measured.board.system.IsDetermined
  fits : ∀ l, c.live = some l → ∀ n ∈ l.root.nodes,
    n.FitsText c.settings.measurer ⟨l.measured.board.system.values⟩ l.measured.heights

/-- All cards along a way have come to rest. -/
def IsAtRestAlong (c : Card σ) (way : List (Nat × Nat)) : Prop :=
  ∀ before, before <+: way → ∀ holder, c.cardAt? before = some holder → holder.IsAtRest

theorem IsAtRestAlong.here {c : Card σ} {way : List (Nat × Nat)} (h : c.IsAtRestAlong way) :
    c.IsAtRest :=
  h [] List.nil_prefix c rfl

theorem IsAtRestAlong.page {c inner : Card σ} {carousel page : Nat} {way : List (Nat × Nat)}
    {state : CarouselState (Card σ)} (h : c.IsAtRestAlong ((carousel, page) :: way))
    (hstate : c.shownCarousel? carousel = some state)
    (hinner : state.pages[page]? = some inner) : inner.IsAtRestAlong way := by
  intro before hbefore holder hholder
  refine h ((carousel, page) :: before) ?_ holder ((cardAt?_cons hstate hinner).trans hholder)
  exact List.cons_prefix_cons.mpr ⟨rfl, hbefore⟩

/-! ## Layouts that are settled again -/

/-- A layout at rest that is settled again, with its constraints in another order, has the frames
that it had. -/
theorem IsAtRest.placements_eq {c : Card σ} {l t : LiveLayout σ} {board : Board σ}
    {strip? : String → Option StripState} {images : Table Nat LoadedImage} (h : c.IsAtRest)
    (hlaid : c.IsLaidOut l) (hl : c.live = some l)
    (hboard : l.measured.board.system.Reorders board.system)
    (ht : t.IsSettled c.settings.measurer strip? l.root images { l.measured with board }) :
    t.tree.placements = l.tree.placements := by
  have hfirst : ∀ i, board.solve.1.unknown i =
      (⟨l.measured.board.system.values⟩ : Solution).unknown i :=
    hboard.solve_unknown (h.determined l hl) hlaid.solved
  have hlast := ht.undisturbed fun n hn => (h.fits l hl n hn).congr hfirst
  rw [ht.tree, hlaid.placements c.settings.measurer strip?]
  exact Drawing.placements_tree (d := ⟨_, _, images, strip?⟩) (e := ⟨_, _, l.images, strip?⟩)
    (fun i => (hlast i).trans (hfirst i)) l.root

/-- The height of a carousel given once more. -/
theorem reorders_pageBoard {c : Card σ} {l : LiveLayout σ} {n : OutlineNode} {spacing : Binary64}
    {extent : Extent} {state : CarouselState (Card σ)} {board : Board σ} (h : c.IsLaidOut l)
    (hn : n ∈ l.root.nodes) (hshown : n.hidden = false) (hslot : n.slot = .carousel spacing extent)
    (hstate : c.carousel? n.path = some state)
    (hboard : pageBoard l n (pagesExtent spacing state.pages).height = .ok board) :
    l.measured.board.system.Reorders board.system := by
  unfold pageBoard at hboard
  split at hboard
  case isTrue =>
    cases hboard
    exact .refl _
  case isFalse hflexible =>
    have howned := h.suits.carousels n hn hshown (by simpa using hflexible) spacing extent hslot
      state hstate
    rw [← howned] at hboard
    refine h.sound.reorders_follow (fun k hk => ?_) hboard
    rw [howned, List.mem_singleton] at hk
    simp [hk, Rules.carouselHeight, Constraint.fixed]

/-! ## Taking a bitmap -/

section Takes

variable {sizes : ImageSizes} {node : Nat} {url : String} {bitmap : Bitmap}
  {hops : List (Nat × Nat)} {c : Card σ} {a : Accepted σ}

/-- The carousels of a card after one of its pages was replaced. -/
theorem shownCarousel?_withPage {l t : LiveLayout σ} {n : OutlineNode} {spacing : Binary64}
    {extent : Extent} {state : CarouselState (Card σ)} {page : Nat} {card : Card σ}
    (h : c.IsLaidOut l) (hl : c.live = some l) (hn : n ∈ l.root.nodes)
    (hshown : n.hidden = false) (hslot : n.slot = .carousel spacing extent)
    (hroot : t.root = l.root) (carousel : Nat) :
    shownCarousel? ({ c.withPage n.path state page card with live := some t } : Card σ) carousel =
      if carousel = n.id then some { state with pages := state.pages.set page card }
      else c.shownCarousel? carousel := by
  have hnode : ∀ id, shownNode? ({ c.withPage n.path state page card with live := some t } :
      Card σ) id = c.shownNode? id := shownNode?_congr hl rfl hroot
  have hcarousel : ∀ path, carousel? ({ c.withPage n.path state page card with live := some t } :
      Card σ) path = if n.path = path then some { state with pages := state.pages.set page card }
      else c.carousel? path := fun path => carousel?_withPage
  rw [shownCarousel?, hnode]
  split
  case isTrue hid =>
    rw [hid, h.shownNode?_eq hl hn hshown]
    simp [hslot, hcarousel]
  case isFalse hid =>
    rw [shownCarousel?]
    cases hk : c.shownNode? carousel with
    | none => rfl
    | some k =>
      obtain ⟨l', hl', hmem, rfl, -⟩ := exists_of_shownNode? hk
      cases hl.symm.trans hl'
      have hpath := h.path_ne hmem hn hid
      simp only [Option.bind_eq_bind, Option.bind_some, hcarousel, if_neg hpath]

/-- The cards on the ways of a card after one of its pages was replaced. -/
theorem cardAt?_withPage {l t : LiveLayout σ} {n : OutlineNode} {spacing : Binary64}
    {extent : Extent} {state : CarouselState (Card σ)} {page : Nat} {inner : Card σ}
    (h : c.IsLaidOut l) (hl : c.live = some l) (hn : n ∈ l.root.nodes)
    (hshown : n.hidden = false) (hslot : n.slot = .carousel spacing extent)
    (hstate : c.carousel? n.path = some state) (hinner : state.pages[page]? = some inner)
    (hroot : t.root = l.root) (card : Card σ) (carousel' page' : Nat) (way : List (Nat × Nat)) :
    cardAt? ((carousel', page') :: way)
        ({ c.withPage n.path state page card with live := some t } : Card σ) =
      if carousel' = n.id ∧ page' = page then card.cardAt? way
      else c.cardAt? ((carousel', page') :: way) := by
  have hlt := (List.getElem?_eq_some_iff.mp hinner).1
  have hold := shownCarousel?_eq h hl hn hshown hslot hstate
  simp only [cardAt?, Option.bind_eq_bind,
    shownCarousel?_withPage h hl hn hshown hslot hroot]
  by_cases hcarousel : carousel' = n.id
  · by_cases hpage : page' = page
    · simp [hcarousel, hpage, hlt]
    · have hother : (state.pages.set page card)[page']? = state.pages[page']? :=
        List.getElem?_set_ne (Ne.symm hpage)
      simp [hcarousel, hpage, hold, hother]
  · simp [hcarousel]

/-- The slot that takes a bitmap, with its constraints before and after. -/
theorem Takes.exists_slot (h : Takes sizes node url bitmap hops c a) (hc : c.IsKept) :
    ∃ holder n i earlier, c.cardAt? hops = some holder ∧ holder.shownNode? node = some n ∧
      n.slot = .image i ∧ i.url = url ∧ a.resized.isSome = isResizedBy n.view i ∧
      c.rulesAt? ⟨hops, node⟩ =
        some (Rules.image node n.view i earlier holder.settings.displayScale) ∧
      a.card.rulesAt? ⟨hops, node⟩ = some (Rules.image node n.view i
        (sizes.insert url bitmap.size) holder.settings.displayScale) := by
  induction h with
  | @here c l t n i board hl hn hid hshown hslot hurl hboard ht =>
    subst hid
    have hlaid := hc.isLaidOut hl
    obtain ⟨earlier, hearlier⟩ := hlaid.suits.images n hn hshown i hslot
    refine ⟨c, n, i, earlier, rfl, hlaid.shownNode?_eq hl hn hshown, hslot, hurl, ?_, ?_, ?_⟩
    · cases isResizedBy n.view i <;> rfl
    · simp [rulesAt?, cardAt?, hl, hearlier]
    · have hafter : t.measured.board.sheet.ofOwner (.image n.id) = Rules.image n.id n.view i
          (sizes.insert url bitmap.size) c.settings.displayScale := by
        rw [ht.remeasured.ofOwner _ (by simp), (hlaid.sound.of_follow hboard).2,
          Sheet.ofOwner_replace_self]
      simp [rulesAt?, cardAt?, hafter]
  | @page c inner l t n spacing extent state carousel page hops a board hl hn hid hshown hslot
      hstate hinner ha hboard ht ih =>
    subst hid
    have hlaid := hc.isLaidOut hl
    obtain ⟨holder, k, i, earlier, hholder, hk, hkslot, hurl, hresized, hbefore, hafter⟩ :=
      ih (hc.page hstate (List.mem_of_getElem? hinner))
    have hway : c.cardAt? ((n.id, page) :: hops) = inner.cardAt? hops :=
      cardAt?_cons (shownCarousel?_eq hlaid hl hn hshown hslot hstate) hinner
    have hway' := cardAt?_withPage hlaid hl hn hshown hslot hstate hinner ht.root_eq a.card n.id
      page hops
    rw [if_pos ⟨rfl, rfl⟩] at hway'
    refine ⟨holder, k, i, earlier, hway.trans hholder, hk, hkslot, hurl, ?_, ?_, ?_⟩
    · rw [Option.isSome_map, hresized]
    · rw [rulesAt?, hway]
      exact hbefore
    · rw [rulesAt?, hway']
      exact hafter

/-- Another page with the same frames, on it and on its own pages, changes no frame. -/
theorem placementsAt?_withPage {l t : LiveLayout σ} {n : OutlineNode} {spacing : Binary64}
    {extent : Extent} {state : CarouselState (Card σ)} {page : Nat} {inner card : Card σ}
    (h : c.IsLaidOut l) (hl : c.live = some l) (hn : n ∈ l.root.nodes)
    (hshown : n.hidden = false) (hslot : n.slot = .carousel spacing extent)
    (hstate : c.carousel? n.path = some state) (hinner : state.pages[page]? = some inner)
    (hroot : t.root = l.root) (hframes : t.tree.placements = l.tree.placements)
    (hinside : ∀ way, card.placementsAt? way = inner.placementsAt? way) (way : List (Nat × Nat)) :
    placementsAt? ({ c.withPage n.path state page card with live := some t } : Card σ) way =
      c.placementsAt? way := by
  match way with
  | [] => simp [placementsAt?, cardAt?, tree?, hl, hframes]
  | (carousel', page') :: way =>
    rw [placementsAt?, placementsAt?,
      cardAt?_withPage h hl hn hshown hslot hstate hinner hroot card]
    split
    case isTrue hon =>
      obtain ⟨rfl, rfl⟩ := hon
      rw [cardAt?_cons (shownCarousel?_eq h hl hn hshown hslot hstate) hinner]
      exact hinside way
    case isFalse => rfl

/-- Where a bitmap leaves the constraints of its slot, all frames of cards at rest stay. -/
theorem Takes.placementsAt?_eq (h : Takes sizes node url bitmap hops c a) (hc : c.IsKept)
    (hrules : a.card.rulesAt? ⟨hops, node⟩ = c.rulesAt? ⟨hops, node⟩)
    (hrest : c.IsAtRestAlong hops) (way : List (Nat × Nat)) :
    a.card.placementsAt? way = c.placementsAt? way := by
  induction h generalizing way with
  | @here c l t n i board hl hn hid hshown hslot hurl hboard ht =>
    subst hid
    have hlaid := hc.isLaidOut hl
    obtain ⟨hsound, hsheet⟩ := hlaid.sound.of_follow hboard
    -- The slot was given what it had, so the relations held are the same in another order.
    have hsame : l.measured.board.sheet.ofOwner (.image n.id) = Rules.image n.id n.view i
        (sizes.insert url bitmap.size) c.settings.displayScale := by
      have hafter := ht.remeasured.ofOwner (.image n.id) (by simp)
      simp only [rulesAt?, cardAt?, Option.bind_some, hl, Option.map_some, hafter, hsheet,
        Sheet.ofOwner_replace_self, Option.some.injEq] at hrules
      exact hrules.symm
    rw [← hsame] at hboard
    have hreorders := hlaid.sound.reorders_follow
      (hsame ▸ Rules.image_breakable (sizes.insert url bitmap.size) _) hboard
    exact placementsAt?_withLive hl ht.root_eq
      (hrest.here.placements_eq hlaid hl hreorders ht) way
  | @page c inner l t n spacing extent state carousel page hops a board hl hn hid hshown hslot
      hstate hinner ha hboard ht ih =>
    subst hid
    have hlaid := hc.isLaidOut hl
    have hold := shownCarousel?_eq hlaid hl hn hshown hslot hstate
    have hinside : ∀ way, a.card.placementsAt? way = inner.placementsAt? way := by
      refine ih (hc.page hstate (List.mem_of_getElem? hinner)) ?_ (hrest.page hold hinner)
      rw [rulesAt?, rulesAt?, cardAt?_cons hold hinner,
        cardAt?_withPage hlaid hl hn hshown hslot hstate hinner ht.root_eq a.card,
        if_pos ⟨rfl, rfl⟩] at hrules
      exact hrules
    -- The page is as high as it was, so the carousel was given the height that it had.
    rw [pagesExtent_set hinner (hinside [])] at hboard
    have hreorders := reorders_pageBoard hlaid hn hshown hslot hstate hboard
    exact placementsAt?_withPage hlaid hl hn hshown hslot hstate hinner ht.root_eq
      (hrest.here.placements_eq hlaid hl hreorders ht) hinside way

end Takes

/-! ## Bitmaps that are not announced -/

/-- Of every card that comes about, and of every bitmap that it takes without announcing it: the
bitmap is for a slot that keeps to minimal lengths and whose size the document states. The slot has
the constraints that it had if and only if its wrapping sides would like to have by the bitmap what
they liked to have before. And in this case no frame moves, on the card and on all pages, if the
cards on the way to the slot are at rest. -/
theorem unannounced_bitmap {c : Card σ} (hc : c.Reachable) {sizes : ImageSizes}
    {identity : CardIdentity} {route : ImageRoute} {url : String} {bitmap : Bitmap} {a : Accepted σ}
    (ha : c.accept sizes identity route url bitmap = some a) (hquiet : a.resized = none) :
    ∃ holder n i earlier, c.cardAt? route.hops = some holder ∧
      holder.shownNode? route.node = some n ∧ n.slot = .image i ∧ i.url = url ∧
      SizingPolicy.of n.view.width n.view.height i.mode = .minimum ∧ i.pixels.isSome ∧
      c.rulesAt? route =
        some (Rules.image route.node n.view i earlier holder.settings.displayScale) ∧
      (a.card.rulesAt? route = c.rulesAt? route ↔
        i.wishes n.view (sizes.insert url bitmap.size) holder.settings.displayScale =
          i.wishes n.view earlier holder.settings.displayScale) ∧
      (a.card.rulesAt? route = c.rulesAt? route → c.IsAtRestAlong route.hops →
        ∀ way, a.card.placementsAt? way = c.placementsAt? way) := by
  have hkept := hc.isKept
  have htakes := takes_of_accept hkept ha
  obtain ⟨holder, n, i, earlier, hholder, hn, hslot, hurl, hresized, hbefore, hafter⟩ :=
    htakes.exists_slot hkept
  have hquiet : isResizedBy n.view i = false := by rw [← hresized, hquiet]; rfl
  have hminimum : SizingPolicy.of n.view.width n.view.height i.mode = .minimum ∧
      i.pixels.isSome := by
    unfold isResizedBy at hquiet
    cases hpolicy : SizingPolicy.of n.view.width n.view.height i.mode with
    | ratio => simp [hpolicy] at hquiet
    | minimum => simpa [hpolicy, Option.isSome_iff_ne_none] using hquiet
  refine ⟨holder, n, i, earlier, hholder, hn, hslot, hurl, hminimum.1, hminimum.2, hbefore, ?_,
    fun hrules hrest way => htakes.placementsAt?_eq hkept hrules hrest way⟩
  rw [hbefore, hafter, Option.some.injEq]
  exact Rules.image_eq_iff hminimum.1

/-! ## Messages that are one image -/

section OneImage

variable (s : LayoutSettings) (sizes : ImageSizes) (identity : CardIdentity) (i : ImageItem)

/-- The image has the constraints that the sizes known ask for. -/
theorem rulesAt?_render_image :
    ((new s : Card σ).render sizes identity ⟨1, some [.image false i]⟩).1.rulesAt? (.here 1) =
      some (Rules.image 1 i.view (i.slot false) sizes s.displayScale) := by
  obtain ⟨l, board, hrendered, hsheet, hremeasured, -⟩ :=
    (new s : Card σ).exists_renderPage identity sizes 1 [.image false i] rfl
  have howned := ofOwner_image_bodyOutline s sizes identity [.image false i]
    (new s : Card σ).carousels.beginPass
    (n := ⟨1, itemPath "body" 0, i.view, false, false, .image (i.slot false), []⟩)
    (by simp [bodyOutline_image, rootNode, OutlineNode.nodes, outlineNodes]) rfl rfl
  have hlast := (hremeasured.ofOwner (.image 1) (by simp)).trans
    ((congrArg (Sheet.ofOwner · _) hsheet).trans howned)
  rw [render, hrendered]
  simp [rulesAt?, ImageRoute.here, cardAt?, hlast]

/-- The card accepts any bitmap for an image that bitmaps do not resize, and does not announce it. -/
theorem exists_accept_image (hurl : isFetched i.url = true)
    (hkeeps : isResizedBy i.view (i.slot false) = false) (bitmap : Bitmap) :
    ∃ a, ((new s : Card σ).render sizes identity ⟨1, some [.image false i]⟩).1.accept sizes identity
        (.here 1) i.url bitmap = some a ∧ a.resized = none := by
  have hkept := (Reachable.render (.new (σ := σ) s) sizes identity
    ⟨1, some [.image false i]⟩).isKept
  have hrequested : ⟨identity, .here 1, i.url⟩ ∈
      ((new s : Card σ).render sizes identity ⟨1, some [.image false i]⟩).1.requests := by
    rw [requests_render_image s sizes identity i hurl]
    exact List.mem_singleton_self _
  obtain ⟨a, ha, -⟩ := exists_accept hkept hrequested sizes bitmap
  obtain ⟨holder, n, j, earlier, hholder, hn, hslot, -, hresized, -⟩ :=
    (takes_of_accept hkept ha).exists_slot hkept
  cases hholder
  cases (shownNode?_render_image s sizes identity i).symm.trans hn
  cases hslot
  refine ⟨a, ha, ?_⟩
  rwa [hkeeps, Option.isSome_eq_false_iff, Option.isNone_iff_eq_none] at hresized

/-- Under an ideal solver the card is at rest. -/
theorem isAtRestAlong_render_image :
    IsAtRestAlong ((new s : Card IdealSolver).render sizes identity
      ⟨1, some [.image false i]⟩).1 [] := by
  have hkept := (Reachable.render (.new (σ := IdealSolver) s) sizes identity
    ⟨1, some [.image false i]⟩).isKept
  obtain ⟨l, board, hrendered, -, -, hroot, -⟩ :=
    (new s : Card IdealSolver).exists_renderPage identity sizes 1 [.image false i] rfl
  rw [bodyOutline_image] at hroot
  intro before hbefore holder hholder
  rw [List.prefix_nil.mp hbefore] at hholder
  cases hholder
  constructor
  · intro t ht
    obtain ⟨rs, hrs⟩ := (hkept.isLaidOut ht).sound.holds
    exact IdealSolver.isDetermined hrs
  · intro t ht n hn text before' htext
    have hl : t = l := by
      rw [render, hrendered] at ht
      exact (Option.some.inj ht).symm
    rw [hl, hroot] at hn
    have htexts : ∀ k ∈ (rootNode s [⟨1, itemPath "body" 0, i.view, false, false,
        .image (i.slot false), []⟩]).nodes, k.shownText? = none := by
      simp [rootNode, OutlineNode.nodes, outlineNodes, OutlineNode.shownText?]
    simp [htexts n hn] at htext

end OneImage

/-- An image of fixed sides stays as it is whatever bitmap arrives for it. An image whose sides wrap
and that should be twice as wide as high gets other constraints from a square bitmap, and neither
bitmap is announced. -/
theorem unannounced_bitmap_of_images :
    let image (width height : Size) : ImageItem :=
      ⟨{ View.plain with width, height }, "a", .aspectFit, none, some ⟨200, 100⟩⟩
    let card (i : ImageItem) : Card IdealSolver :=
      ((new {}).render .empty ⟨"m", 1⟩ ⟨1, some [.image false i]⟩).1
    let still := card (image (.fixed 100) (.fixed 50))
    let moved := card (image .wrap .wrap)
    (∀ bitmap, ∃ a, still.accept .empty ⟨"m", 1⟩ (.here 1) "a" bitmap = some a ∧
      a.resized = none ∧ ∀ way, a.card.placementsAt? way = still.placementsAt? way) ∧
    ∀ bitmap, bitmap.size = ⟨100, 100⟩ →
      ∃ a, moved.accept .empty ⟨"m", 1⟩ (.here 1) "a" bitmap = some a ∧
        a.resized = none ∧ a.card.rulesAt? (.here 1) ≠ moved.rulesAt? (.here 1) := by
  intro image card still moved
  constructor
  · intro bitmap
    obtain ⟨a, ha, hquiet⟩ := exists_accept_image (σ := IdealSolver) {} .empty ⟨"m", 1⟩
      (image (.fixed 100) (.fixed 50)) (by decide) rfl bitmap
    refine ⟨a, ha, hquiet, ?_⟩
    obtain ⟨holder, n, i, earlier, hholder, hn, hslot, -, -, -, -, hrules, hframes⟩ :=
      unannounced_bitmap (.render (.new {}) _ _ _) ha hquiet
    cases hholder
    cases (shownNode?_render_image _ _ _ _).symm.trans hn
    refine hframes (hrules.mpr ?_) (isAtRestAlong_render_image _ _ _ _)
    rw [ImageSlot.wishes_of_not_wrap rfl rfl, ImageSlot.wishes_of_not_wrap rfl rfl]
  · intro bitmap hsize
    obtain ⟨a, ha, hquiet⟩ := exists_accept_image (σ := IdealSolver) {} .empty ⟨"m", 1⟩
      (image .wrap .wrap) (by decide) rfl bitmap
    refine ⟨a, ha, hquiet, fun hsame => ?_⟩
    obtain ⟨holder, n, i, earlier, hholder, hn, hslot, -, hpolicy, -, hbefore, hrules, -⟩ :=
      unannounced_bitmap (.render (.new {}) _ _ _) ha hquiet
    cases hholder
    cases (shownNode?_render_image _ _ _ _).symm.trans hn
    cases hslot
    rw [rulesAt?_render_image, Option.some.injEq] at hbefore
    have hwishes := (hrules.mp hsame).trans (((Rules.image_eq_iff hpolicy).mp hbefore).symm)
    rw [hsize] at hwishes
    exact absurd hwishes (by decide +kernel)

end Card
end MessageCard
