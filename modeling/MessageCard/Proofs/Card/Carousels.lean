import MessageCard.Proofs.Card.Arrangement

/-!
# The carousels of an arrangement

While items are arranged, each carousel that is shown claims its pages under its path and renders
them. As no two items have the same path, a carousel keeps what it got: when all items are arranged,
the cache has for each carousel node exactly the pages from which the node took its extent.
-/
namespace MessageCard

namespace CarouselCache

variable {π : Type} {cs : CarouselCache π} {P : CarouselKey → Nat → π → Prop}

/-- All pages that are kept have a property, which may speak about their places. -/
structure AllPages (P : CarouselKey → Nat → π → Prop) (cs : CarouselCache π) : Prop where
  previous : ∀ key state, cs.previous.find? key = some state →
    ∀ i p, state.pages[i]? = some p → P key i p
  current : ∀ key state, cs.current.find? key = some state →
    ∀ i p, state.pages[i]? = some p → P key i p

theorem allPages_empty : (empty : CarouselCache π).AllPages P :=
  ⟨fun _ _ h => (nomatch h), fun _ _ h => (nomatch h)⟩

theorem AllPages.beginPass (h : cs.AllPages P) : cs.beginPass.AllPages P :=
  ⟨h.current, fun _ _ h => (nomatch h)⟩

theorem AllPages.endPass (h : cs.AllPages P) : cs.endPass.AllPages P :=
  ⟨fun _ _ h => (nomatch h), h.current⟩

theorem AllPages.get (h : cs.AllPages P) {key : CarouselKey} {state : CarouselState π}
    (hget : cs.get? key = some state) {i : Nat} {p : π} (hp : state.pages[i]? = some p) :
    P key i p :=
  h.current key state hget i p hp

/-- Pages that are put back count instead of those that were kept under their key. -/
theorem AllPages.put_of {key : CarouselKey} {state : CarouselState π}
    (hprevious : ∀ other state', cs.previous.find? other = some state' →
      ∀ i p, state'.pages[i]? = some p → P other i p)
    (hothers : ∀ other state', key ≠ other → cs.get? other = some state' →
      ∀ i p, state'.pages[i]? = some p → P other i p)
    (hstate : ∀ i p, state.pages[i]? = some p → P key i p) : (cs.put key state).AllPages P := by
  refine ⟨hprevious, fun other state' hfind => ?_⟩
  rw [CarouselCache.put, Table.find?_insert] at hfind
  split at hfind
  case isTrue hkey =>
    cases hfind
    exact hkey ▸ hstate
  case isFalse hkey => exact hothers other state' hkey hfind

theorem AllPages.put (h : cs.AllPages P) {key : CarouselKey} {state : CarouselState π}
    (hstate : ∀ i p, state.pages[i]? = some p → P key i p) : (cs.put key state).AllPages P :=
  .put_of h.previous (fun other state' _ => h.current other state') hstate

/-- The pages that are claimed were kept or are new. -/
theorem AllPages.claimed (h : cs.AllPages P) (key : CarouselKey) (pages : Nat) {build : Nat → π}
    (hbuild : ∀ i, P key i (build i)) :
    ∀ i p, (cs.checkout key pages build).1.pages[i]? = some p → P key i p := by
  unfold checkout
  cases hget : cs.get? key with
  | some state => exact h.current key state hget
  | none =>
    cases hreusable : cs.reusable? key pages with
    | some state =>
      exact h.previous key state (Option.filter_eq_some_iff.mp hreusable).1
    | none =>
      intro i p hp
      obtain ⟨hlt, rfl⟩ := List.getElem?_eq_some_iff.mp hp
      simpa using hbuild i

/-- Claiming keeps what is kept. -/
theorem AllPages.checkout (h : cs.AllPages P) (key : CarouselKey) (pages : Nat) {build : Nat → π}
    (hbuild : ∀ i, P key i (build i)) : (cs.checkout key pages build).2.AllPages P := by
  have hclaimed := h.claimed key pages hbuild
  refine ⟨fun other state hfind => ?_, fun other state hfind => ?_⟩
  · refine h.previous other state ?_
    rw [CarouselCache.checkout, Table.find?_erase] at hfind
    split at hfind
    · cases hfind
    · exact hfind
  · rw [CarouselCache.checkout, Table.find?_insert] at hfind
    split at hfind
    case isTrue hkey =>
      cases hfind
      exact hkey ▸ hclaimed
    case isFalse => exact h.current other state hfind

/-- Pages that are claimed for the first time are as many as asked for. -/
theorem length_claimed {key : CarouselKey} (hget : cs.get? key = none) (pages : Nat)
    (build : Nat → π) : (cs.checkout key pages build).1.pages.length = pages := by
  cases hreusable : cs.reusable? key pages with
  | some state =>
    have hlength := (Option.filter_eq_some_iff.mp hreusable).2
    simpa [checkout, hget, hreusable] using hlength
  | none => simp [checkout, hget, hreusable]

/-- Claiming a carousel leaves all others as they are. -/
theorem get?_checkout_of_ne {key other : CarouselKey} (hne : key ≠ other) (pages : Nat)
    (build : Nat → π) : (cs.checkout key pages build).2.get? other = cs.get? other := by
  rw [get?, checkout, Table.find?_insert, if_neg hne]
  rfl

theorem get?_put (key other : CarouselKey) (state : CarouselState π) :
    (cs.put key state).get? other = if key = other then some state else cs.get? other := by
  rw [get?, put, Table.find?_insert]
  rfl

theorem put_of_get? {key : CarouselKey} {state : CarouselState π} (h : cs.get? key = some state) :
    cs.put key state = cs := by
  rw [put, Table.insert_of_find? h]

end CarouselCache

/-- The place of a card: the carousels around it, the outermost first, each with the number of a
page. -/
abbrev CardPlace := List (CarouselKey × Nat)

/-- The place of a page. -/
def CardPlace.page (place : CardPlace) (key : CarouselKey) (index : Nat) : CardPlace :=
  place ++ [(key, index)]

namespace Card

variable {σ : Type} [RelationSolver σ] {s : LayoutSettings} {sizes : ImageSizes}
  {identity : CardIdentity}

/-- A carousel that is shown claims its pages and renders them. -/
theorem arrange_carousel_of_shown {view : View} {pages : List (TemplateOf Item)}
    {spacing : Binary64} {p : Place} (cs : CarouselCache (Card σ)) (h : p.hidden = false) :
    arrange s sizes identity (.carousel view pages spacing) p cs =
      let key : CarouselKey := ⟨identity, p.path⟩
      let width := pageWidth s (view.innerWidth p.available)
      let claimed := cs.checkout key pages.length fun _ => new { s with maxWidth := width }
      let cards := renderPages sizes key width pages 0 claimed.1.pages
      (p.node view (.carousel spacing (pagesExtent spacing cards)) [],
        claimed.2.put key { claimed.1 with pages := cards }) := by
  rw [arrange, if_neg (by simp [h])]

/-- A carousel that is hidden claims nothing. -/
theorem arrange_carousel_of_hidden {view : View} {pages : List (TemplateOf Item)}
    {spacing : Binary64} {p : Place} (cs : CarouselCache (Card σ)) (h : p.hidden = true) :
    arrange s sizes identity (.carousel view pages spacing) p cs =
      (p.node view (.carousel spacing .zero) [], cs) := by
  rw [arrange, if_pos h]

mutual

/-- An item that is hidden claims nothing, and neither does any item in it. -/
theorem arrange_of_hidden : ∀ (item : Item) (p : Place) (cs : CarouselCache (Card σ)),
    p.hidden = true → (arrange s sizes identity item p cs).2 = cs
  | .box view direction items align, p, cs, hp => by
    rw [arrange_box]
    exact arrangeAll_of_hidden items _ _ _ _ hp
  | .text isButton t, p, cs, hp => by rw [arrange_text]
  | .image isButton i, p, cs, hp => by rw [arrange_image]
  | .carousel view pages spacing, p, cs, hp => by rw [arrange_carousel_of_hidden cs hp]

theorem arrangeAll_of_hidden : ∀ (items : List Item) (siblings : Siblings) (index id : Nat)
    (cs : CarouselCache (Card σ)), siblings.hidden = true →
    (arrangeAll s sizes identity siblings items index id cs).2 = cs
  | [], siblings, index, id, cs, h => by rw [arrangeAll_nil]
  | item :: rest, siblings, index, id, cs, h => by
    have hplace : (siblings.place id index item).hidden = true := by simp [Siblings.place, h]
    rw [arrangeAll_cons]
    dsimp only
    rw [arrange_of_hidden item _ cs hplace]
    exact arrangeAll_of_hidden rest siblings _ _ cs h

end

/-! ## What arranging leaves alone -/

mutual

/-- Arranging an item leaves alone what is kept under other paths. -/
theorem get?_arrange : ∀ (item : Item) (p : Place) (cs : CarouselCache (Card σ))
    (key : CarouselKey), key.path ∉ item.ways.map (pathFrom p.path) →
    (arrange s sizes identity item p cs).2.get? key = cs.get? key
  | .box view direction items align, p, cs, key, hkey => by
    rw [arrange_box]
    rw [Item.ways, List.map_cons, List.mem_cons, not_or] at hkey
    exact get?_arrangeAll items _ _ _ _ _ hkey.2
  | .text isButton t, p, cs, key, hkey => by rw [arrange_text]
  | .image isButton i, p, cs, key, hkey => by rw [arrange_image]
  | .carousel view pages spacing, p, cs, key, hkey => by
    cases hhidden : p.hidden with
    | true => rw [arrange_carousel_of_hidden cs hhidden]
    | false =>
      have hne : (⟨identity, p.path⟩ : CarouselKey) ≠ key := by
        rintro rfl
        simp [Item.ways, pathFrom] at hkey
      rw [arrange_carousel_of_shown cs hhidden]
      dsimp only
      rw [CarouselCache.get?_put, if_neg hne, CarouselCache.get?_checkout_of_ne hne]

theorem get?_arrangeAll : ∀ (items : List Item) (siblings : Siblings) (index id : Nat)
    (cs : CarouselCache (Card σ)) (key : CarouselKey),
    key.path ∉ (waysFrom index items).map (pathFrom siblings.path) →
    (arrangeAll s sizes identity siblings items index id cs).2.get? key = cs.get? key
  | [], siblings, index, id, cs, key, hkey => by rw [arrangeAll_nil]
  | item :: rest, siblings, index, id, cs, key, hkey => by
    rw [waysFrom, List.map_append, List.mem_append, not_or, List.map_map] at hkey
    rw [arrangeAll_cons]
    dsimp only
    rw [get?_arrangeAll rest _ _ _ _ _ hkey.2]
    exact get?_arrange item _ _ _ hkey.1

end

/-! ## What carousels show -/

/-- A node that is shown as a carousel has the extent of the pages kept under its path. -/
def ShowsKept (identity : CardIdentity) (cs : CarouselCache (Card σ)) (n : OutlineNode) : Prop :=
  n.hidden = false → ∀ spacing extent, n.slot = .carousel spacing extent →
    ∃ state, cs.get? ⟨identity, n.path⟩ = some state ∧ extent = pagesExtent spacing state.pages

mutual

theorem showsKept_arrange : ∀ (item : Item) (p : Place) (cs : CarouselCache (Card σ)),
    ∀ n ∈ (arrange s sizes identity item p cs).1.nodes,
      ShowsKept identity (arrange s sizes identity item p cs).2 n
  | .box view direction items align, p, cs => by
    rw [arrange_box, OutlineNode.nodes_eq, List.forall_mem_cons]
    exact ⟨fun _ spacing extent h => (by cases h), showsKept_arrangeAll items _ _ _ _⟩
  | .text isButton t, p, cs => by
    rw [arrange_text, OutlineNode.nodes_eq, List.forall_mem_cons]
    exact ⟨fun _ spacing extent h => by (cases h), fun n hn => absurd hn List.not_mem_nil⟩
  | .image isButton i, p, cs => by
    rw [arrange_image, OutlineNode.nodes_eq, List.forall_mem_cons]
    exact ⟨fun _ spacing extent h => by (cases h), fun n hn => absurd hn List.not_mem_nil⟩
  | .carousel view pages spacing, p, cs => by
    cases hhidden : p.hidden with
    | true =>
      rw [arrange_carousel_of_hidden cs hhidden, OutlineNode.nodes_eq, List.forall_mem_cons]
      refine ⟨fun hshown => ?_, fun n hn => absurd hn List.not_mem_nil⟩
      exact absurd (hhidden.symm.trans hshown) (by simp)
    | false =>
      rw [arrange_carousel_of_shown cs hhidden, OutlineNode.nodes_eq, List.forall_mem_cons]
      refine ⟨fun _ spacing' extent h => ?_, fun n hn => absurd hn List.not_mem_nil⟩
      cases h
      exact ⟨_, (CarouselCache.get?_put ..).trans (if_pos rfl), rfl⟩

theorem showsKept_arrangeAll : ∀ (items : List Item) (siblings : Siblings) (index id : Nat)
    (cs : CarouselCache (Card σ)),
    ∀ n ∈ outlineNodes (arrangeAll s sizes identity siblings items index id cs).1,
      ShowsKept identity (arrangeAll s sizes identity siblings items index id cs).2 n
  | [], siblings, index, id, cs => by
    rw [arrangeAll_nil]
    exact fun n hn => absurd hn List.not_mem_nil
  | item :: rest, siblings, index, id, cs => by
    have hpaths := nodup_waysFrom index (item :: rest)
    rw [waysFrom, List.nodup_append] at hpaths
    rw [arrangeAll_cons, outlineNodes, List.forall_mem_append]
    refine ⟨fun n hn hshown spacing extent hslot => ?_, showsKept_arrangeAll rest _ _ _ _⟩
    obtain ⟨state, hstate, hextent⟩ := showsKept_arrange item _ cs n hn hshown spacing extent hslot
    refine ⟨state, ?_, hextent⟩
    dsimp only
    rw [get?_arrangeAll rest, hstate]
    -- The path of the node is that of a way through the item, so none of the rest.
    intro hmem
    obtain ⟨other, hother, hpath⟩ := List.mem_map.mp hmem
    have hn : n.path ∈ item.ways.map (pathFrom (siblings.place id index item).path) :=
      paths_arrange item _ cs ▸ List.mem_map_of_mem hn
    obtain ⟨way, hway, hway'⟩ := List.mem_map.mp hn
    have hsame : pathFrom siblings.path other = pathFrom siblings.path (index :: way) := by
      rw [hpath, ← hway']
      rfl
    have heq := pathFrom_injective siblings.path hsame
    exact hpaths.2.2 _ (List.mem_map_of_mem hway) _ hother heq.symm

end

/-- When a body is arranged, its carousels have the extents of the pages kept for them. -/
theorem showsKept_bodyOutline (items : List Item) (cs : CarouselCache (Card σ)) :
    ∀ n ∈ (bodyOutline s sizes identity items cs).nodes, ShowsKept identity
      (arrangeAll s sizes identity (bodySiblings s sizes items) items 0 1 cs).2 n := by
  rw [OutlineNode.nodes_eq, List.forall_mem_cons]
  exact ⟨fun _ spacing extent h => (by cases h), showsKept_arrangeAll items _ _ _ _⟩

/-! ## What rendering keeps of all cards -/

/-- A property of cards at their places that lasts when templates are rendered on a card that has
it, as all its pages have. -/
structure SurvivesRendering (P : CardPlace → Card σ → Prop) : Prop where
  pages : ∀ {place c}, P place c → c.carousels.AllPages fun key i => P (place.page key i)
  /-- New pages have it. -/
  fresh : ∀ {place c}, P place c → ∀ width key i,
    P (CardPlace.page place key i) (new { c.settings with maxWidth := width })
  withMaxWidth : ∀ {place c}, P place c → ∀ width, P place (c.withMaxWidth width)
  cleared : ∀ {place c}, P place c → P place c.cleared
  body : ∀ (sizes : ImageSizes) (identity : CardIdentity) (items : List Item) {place : CardPlace}
    {c : Card σ}, P place c →
    (arrangeAll c.settings sizes identity (bodySiblings c.settings sizes items) items 0 1
      c.carousels.beginPass).2.AllPages (fun key i => P (place.page key i)) →
    P place (c.renderBody sizes identity items).1

namespace SurvivesRendering

variable {P : CardPlace → Card σ → Prop}

mutual

/-- Arranging an item keeps the property of all pages. -/
theorem arrange (hP : SurvivesRendering P) : ∀ {s : LayoutSettings} (place : CardPlace)
    (identity : CardIdentity) (item : Item) (p : Place) (cs : CarouselCache (Card σ)),
    (∀ width key i, P (place.page key i) (new { s with maxWidth := width })) →
    cs.AllPages (fun key i => P (place.page key i)) →
    (Card.arrange s sizes identity item p cs).2.AllPages fun key i => P (place.page key i)
  | s, place, identity, .box view direction items align, p, cs, hfresh, h => by
    rw [arrange_box]
    exact arrangeAll hP place identity items _ _ _ _ hfresh h
  | s, place, identity, .text isButton t, p, cs, hfresh, h => by rwa [arrange_text]
  | s, place, identity, .image isButton i, p, cs, hfresh, h => by rwa [arrange_image]
  | s, place, identity, .carousel view pages spacing, p, cs, hfresh, h => by
    cases hhidden : p.hidden with
    | true => rwa [arrange_carousel_of_hidden cs hhidden]
    | false =>
      rw [arrange_carousel_of_shown cs hhidden]
      dsimp only
      have hnew : ∀ i, P (place.page ⟨identity, p.path⟩ i)
          (new { s with maxWidth := pageWidth s (view.innerWidth p.available) }) := hfresh _ _
      have hclaimed := h.claimed _ pages.length hnew
      refine (h.checkout _ _ hnew).put fun i c hc => ?_
      have hcard := renderPages hP place pages _ _ 0 _
        (fun j d hd => (Nat.zero_add j).symm ▸ hclaimed j d hd) i c hc
      rwa [Nat.zero_add] at hcard

theorem arrangeAll (hP : SurvivesRendering P) : ∀ {s : LayoutSettings} (place : CardPlace)
    (identity : CardIdentity) (items : List Item) (siblings : Siblings) (index id : Nat)
    (cs : CarouselCache (Card σ)),
    (∀ width key i, P (place.page key i) (new { s with maxWidth := width })) →
    cs.AllPages (fun key i => P (place.page key i)) →
    (Card.arrangeAll s sizes identity siblings items index id cs).2.AllPages
      fun key i => P (place.page key i)
  | s, place, identity, [], siblings, index, id, cs, hfresh, h => by rwa [arrangeAll_nil]
  | s, place, identity, item :: rest, siblings, index, id, cs, hfresh, h => by
    rw [arrangeAll_cons]
    have hfirst := arrange hP place identity item (siblings.place id index item) cs hfresh h
    exact arrangeAll hP place identity rest _ _ _ _ hfresh hfirst

theorem renderPages (hP : SurvivesRendering P) : ∀ (place : CardPlace)
    (pages : List (TemplateOf Item)) (key : CarouselKey) (width : Binary64) (index : Nat)
    (cards : List (Card σ)),
    (∀ i c, cards[i]? = some c → P (place.page key (index + i)) c) →
    ∀ i c, (Card.renderPages sizes key width pages index cards)[i]? = some c →
      P (place.page key (index + i)) c
  | place, [], key, width, index, cards, h => by rwa [Card.renderPages]
  | place, page :: rest, key, width, index, [], h => by rwa [Card.renderPages]
  | place, page :: rest, key, width, index, card :: cards, h => by
    intro i c hc
    rw [Card.renderPages] at hc
    cases i with
    | zero =>
      cases hc
      exact renderPage hP page _ _ _ (hP.withMaxWidth (h 0 card rfl) width)
    | succ i =>
      have hrest := renderPages hP place rest key width (index + 1) cards fun j d hd => by
        rw [Nat.add_right_comm, Nat.add_assoc]
        exact h (j + 1) d hd
      rw [← Nat.add_assoc, Nat.add_right_comm]
      exact hrest i c hc

theorem renderPage (hP : SurvivesRendering P) : ∀ (page : TemplateOf Item)
    (identity : CardIdentity) (place : CardPlace) (c : Card σ), P place c →
    P place (Card.renderPage sizes identity page c).1
  | ⟨version, none⟩, identity, place, c, h => by
    rw [Card.renderPage]
    exact hP.cleared h
  | ⟨version, some items⟩, identity, place, c, h => by
    rw [Card.renderPage]
    split
    · exact hP.body sizes identity items h
        (arrangeAll hP place identity items _ _ _ _ (hP.fresh h) (hP.pages h).beginPass)
    · exact hP.cleared h

end

theorem renderBody (hP : SurvivesRendering P) (identity : CardIdentity) (items : List Item)
    (place : CardPlace) {c : Card σ} (h : P place c) :
    P place (c.renderBody sizes identity items).1 :=
  hP.body sizes identity items h
    (arrangeAll hP place identity items _ _ _ _ (hP.fresh h) (hP.pages h).beginPass)

end SurvivesRendering

end Card
end MessageCard
