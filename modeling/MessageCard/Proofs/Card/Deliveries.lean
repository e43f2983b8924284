import MessageCard.Proofs.Bitmap.Fitting
import MessageCard.Proofs.Card.Requests

/-!
# What images hold

A bitmap is scaled when it arrives, for the view that its slot has then. When the message is
rendered again the slot may get another view, and the bitmap is carried over as it is. So what an
image holds can be told from the bitmaps that were delivered: it is the last one for its slot and
its URL, fitted for the view of the slot at that time. Slots are told apart by the places of their
cards, which are found along ways through carousels and pages, and by the paths of their nodes.
-/
namespace MessageCard

/-- A bitmap that was delivered: for which slot, under which URL, and the view that the slot had
then. -/
structure ImageDelivery where
  place : CardPlace
  path : String
  url : String
  view : View
  bitmap : Bitmap

/-- The last bitmap that was delivered for a slot under a URL. -/
def latest? (past : List ImageDelivery) (place : CardPlace) (path url : String) :
    Option ImageDelivery :=
  past.reverse.find? fun e => e.place = place ∧ e.path = path ∧ e.url = url

section Latest

variable {past : List ImageDelivery} {place : CardPlace} {path url : String} {e : ImageDelivery}

theorem latest?_concat : latest? (past ++ [e]) place path url =
    if e.place = place ∧ e.path = path ∧ e.url = url then some e
    else latest? past place path url := by
  unfold latest?
  rw [List.reverse_append, List.reverse_singleton, List.singleton_append, List.find?_cons]
  split <;> simp_all

theorem latest?_concat_of_place_ne (h : e.place ≠ place) :
    latest? (past ++ [e]) place path url = latest? past place path url := by
  rw [latest?_concat, if_neg fun he => h he.1]

theorem latest?_concat_of_path_ne (h : e.path ≠ path) :
    latest? (past ++ [e]) place path url = latest? past place path url := by
  rw [latest?_concat, if_neg fun he => h he.2.1]

end Latest

namespace CardPlace

variable {place rest : CardPlace} {key other : CarouselKey} {i j : Nat}

/-- What is on one page is on no other. -/
theorem page_prefix : place.page key i <+: place.page other j ++ rest ↔ key = other ∧ i = j := by
  rw [page, page, List.append_assoc, List.prefix_append_right_inj]
  simp

/-- No page is where its card is. -/
theorem page_append_ne : place.page key i ++ rest ≠ place := by
  intro h
  have hlength := congrArg List.length h
  simp [page] at hlength

end CardPlace

namespace Card

variable {σ : Type}

/-! ## Places along ways -/

/-- The place of the card at the end of a way, as it is seen from where the way begins. -/
def placeAt? : List (Nat × Nat) → Card σ → Option CardPlace
  | [], _ => some []
  | (carousel, page) :: way, c => do
    let n ← c.shownNode? carousel
    let state ← c.shownCarousel? carousel
    let inner ← state.pages[page]?
    let place ← placeAt? way inner
    return (⟨c.identity, n.path⟩, page) :: place

theorem placeAt?_cons {c inner : Card σ} {carousel page : Nat} {way : List (Nat × Nat)}
    {n : OutlineNode} {state : CarouselState (Card σ)} (hn : c.shownNode? carousel = some n)
    (hstate : c.shownCarousel? carousel = some state) (hinner : state.pages[page]? = some inner) :
    c.placeAt? ((carousel, page) :: way) =
      (inner.placeAt? way).map ((⟨c.identity, n.path⟩, page) :: ·) := by
  simp only [placeAt?, Option.bind_eq_bind, hn, hstate, hinner, Option.bind_some]
  cases inner.placeAt? way <;> rfl

/-- The delivery of a bitmap along a way. -/
def delivery? (c : Card σ) (route : ImageRoute) (url : String) (bitmap : Bitmap) :
    Option ImageDelivery := do
  let place ← c.placeAt? route.hops
  let holder ← c.cardAt? route.hops
  let n ← holder.shownNode? route.node
  return ⟨place, n.path, url, n.view, bitmap⟩

theorem delivery?_here {c : Card σ} {n : OutlineNode} {node : Nat} (hn : c.shownNode? node = some n)
    (url : String) (bitmap : Bitmap) :
    c.delivery? (.here node) url bitmap = some ⟨[], n.path, url, n.view, bitmap⟩ := by
  simp [delivery?, ImageRoute.here, placeAt?, cardAt?, hn]

/-- A delivery to a page, as it is seen from the card around it. -/
theorem delivery?_through {c inner : Card σ} {carousel page : Nat} {n : OutlineNode}
    {state : CarouselState (Card σ)} {route : ImageRoute} {url : String} {bitmap : Bitmap}
    {e : ImageDelivery} (hn : c.shownNode? carousel = some n)
    (hstate : c.shownCarousel? carousel = some state) (hinner : state.pages[page]? = some inner)
    (he : inner.delivery? route url bitmap = some e) :
    c.delivery? (route.through carousel page) url bitmap =
      some { e with place := (⟨c.identity, n.path⟩, page) :: e.place } := by
  obtain ⟨place, hplace, he⟩ := Option.bind_eq_some_iff.mp he
  obtain ⟨holder, hholder, he⟩ := Option.bind_eq_some_iff.mp he
  obtain ⟨m, hm, he⟩ := Option.bind_eq_some_iff.mp he
  cases he
  rw [delivery?, ImageRoute.through, placeAt?_cons hn hstate hinner, cardAt?_cons hstate hinner]
  simp [hplace, hholder, hm]

/-! ## Bitmaps that are carried over -/

/-- The bitmap that a node takes over from an earlier layout. -/
def carried? (before : LiveLayout σ) (n : OutlineNode) : Option LoadedImage :=
  match n.slot with
  | .image i =>
    let same (o : OutlineNode) : Bool := match o.slot with
      | .image j => o.path = n.path && j.url = i.url
      | _ => false
    (before.root.nodes.find? same).bind fun o => before.images.find? o.id
  | _ => none

/-- The table with what a node takes over. -/
def carry (before : LiveLayout σ) (images : Table Nat LoadedImage) (n : OutlineNode) :
    Table Nat LoadedImage :=
  match carried? before n with
  | some image => images.insert n.id image
  | none => images

theorem carriedImages_eq (before : LiveLayout σ) (root : OutlineNode) :
    carriedImages before root = root.nodes.foldl (carry before) .empty := rfl

theorem find?_carry (before : LiveLayout σ) (images : Table Nat LoadedImage) (n : OutlineNode)
    (id : Nat) : (carry before images n).find? id =
      if n.id = id then (carried? before n).or (images.find? id) else images.find? id := by
  unfold carry
  cases carried? before n with
  | none => simp
  | some image => simp

/-- Nodes enter nothing under the numbers of others. -/
theorem find?_foldl_carry_of_not_mem {before : LiveLayout σ} {ns : List OutlineNode} {id : Nat}
    (h : id ∉ ns.map (·.id)) (images : Table Nat LoadedImage) :
    (ns.foldl (carry before) images).find? id = images.find? id := by
  induction ns generalizing images with
  | nil => rfl
  | cons n ns ih =>
    rw [List.map_cons, List.mem_cons, not_or] at h
    rw [List.foldl_cons, ih h.2, find?_carry, if_neg (Ne.symm h.1)]

/-- A node has the bitmap that it takes over. -/
theorem find?_carriedImages {before : LiveLayout σ} {root n : OutlineNode}
    (hids : (root.nodes.map (·.id)).Nodup) (hn : n ∈ root.nodes) :
    (carriedImages before root).find? n.id = carried? before n := by
  obtain ⟨earlier, later, hnodes, hearlier, hlater⟩ := OutlineNode.exists_split hids hn
  have hnot : ∀ {ks : List OutlineNode}, (∀ k ∈ ks, k.id ≠ n.id) → n.id ∉ ks.map (·.id) := by
    intro ks hks hmem
    obtain ⟨k, hk, hid⟩ := List.mem_map.mp hmem
    exact hks k hk hid
  rw [carriedImages_eq, hnodes, List.foldl_append, List.foldl_cons,
    find?_foldl_carry_of_not_mem (hnot hlater), find?_carry, if_pos rfl,
    find?_foldl_carry_of_not_mem (hnot hearlier), Table.find?_empty, Option.or_none]

/-- A bitmap that is taken over was held at the same path, under the same URL. -/
theorem exists_of_carried? {before : LiveLayout σ} {n : OutlineNode} {i : ImageSlot}
    (hslot : n.slot = .image i) {x : LoadedImage} (h : carried? before n = some x) :
    ∃ o ∈ before.root.nodes, ∃ j, o.slot = .image j ∧ o.path = n.path ∧ j.url = i.url ∧
      before.images.find? o.id = some x := by
  simp only [carried?, hslot] at h
  obtain ⟨o, ho, hx⟩ := Option.bind_eq_some_iff.mp h
  have hsame := List.find?_some ho
  cases hoslot : o.slot with
  | image j =>
    simp only [hoslot, Bool.and_eq_true, decide_eq_true_eq] at hsame
    exact ⟨o, List.mem_of_find?_eq_some ho, j, hoslot, hsame.1, hsame.2, hx⟩
  | _ => simp [hoslot] at hsame

/-! ## Cards that hold what was delivered -/

/-- Every bitmap of a layout is the last one that was delivered for its slot and its URL, fitted for
the view that the slot had then. -/
def HoldsDelivered (past : List ImageDelivery) (place : CardPlace) (scale : Binary64)
    (l : LiveLayout σ) : Prop :=
  ∀ n ∈ l.root.nodes, ∀ i, n.slot = .image i → ∀ x, l.images.find? n.id = some x →
    ∃ e, latest? past place n.path i.url = some e ∧
      x = ⟨e.view.fit scale e.bitmap, e.bitmap.size⟩

namespace HoldsDelivered

variable {past : List ImageDelivery} {place : CardPlace} {scale : Binary64} {l t : LiveLayout σ}
  {e : ImageDelivery}

theorem congr (h : HoldsDelivered past place scale l) (hroot : t.root = l.root)
    (himages : t.images = l.images) : HoldsDelivered past place scale t := by
  unfold HoldsDelivered
  rw [hroot, himages]
  exact h

/-- What is delivered to other cards is of no account for the images of a layout. -/
theorem concat_of_place_ne (h : HoldsDelivered past place scale l) (he : e.place ≠ place) :
    HoldsDelivered (past ++ [e]) place scale l := by
  intro n hn i hslot x hx
  rw [latest?_concat_of_place_ne he]
  exact h n hn i hslot x hx

/-- An image that gets a bitmap, fitted for its view, holds what was delivered last, and all others
what they held. -/
theorem concat_insert [RelationSolver σ] (h : HoldsDelivered past place scale l) {c : Card σ}
    (hlaid : c.IsLaidOut l) {n : OutlineNode} (hn : n ∈ l.root.nodes) {i : ImageSlot}
    (hslot : n.slot = .image i) {bitmap : Bitmap} (hroot : t.root = l.root)
    (himages : t.images = l.images.insert n.id ⟨n.view.fit scale bitmap, bitmap.size⟩) :
    HoldsDelivered (past ++ [⟨place, n.path, i.url, n.view, bitmap⟩]) place scale t := by
  intro k hk j hkslot x hx
  rw [hroot] at hk
  rw [himages, Table.find?_insert] at hx
  by_cases hid : k.id = n.id
  · obtain rfl : k = n := hlaid.eq_of_id hk hn hid
    cases hslot.symm.trans hkslot
    rw [if_pos rfl, Option.some.injEq] at hx
    exact ⟨_, by rw [latest?_concat, if_pos ⟨rfl, rfl, rfl⟩], hx.symm⟩
  · rw [if_neg (Ne.symm hid)] at hx
    rw [latest?_concat_of_path_ne (hlaid.path_ne hk hn hid)]
    exact h k hk j hkslot x hx

end HoldsDelivered

/-- A card at a place and all pages that it keeps hold what was delivered for them. -/
inductive HoldsPast (past : List ImageDelivery) : CardPlace → Card σ → Prop
  | intro {place : CardPlace} {c : Card σ}
      (idle : ∀ key, c.carousels.previous.find? key = none)
      (pages : ∀ key (state : CarouselState (Card σ)), c.carousels.current.find? key = some state →
        ∀ (i : Nat) (p : Card σ), state.pages[i]? = some p → HoldsPast past (place.page key i) p)
      (live : ∀ l, c.live = some l → HoldsDelivered past place c.settings.displayScale l) :
      HoldsPast past place c

namespace HoldsPast

variable {past : List ImageDelivery} {place : CardPlace} {c : Card σ}

theorem idle (h : c.HoldsPast past place) (key : CarouselKey) :
    c.carousels.previous.find? key = none := by
  cases h with
  | intro idle pages live => exact idle key

theorem page (h : c.HoldsPast past place) {key : CarouselKey} {state : CarouselState (Card σ)}
    (hstate : c.carousels.get? key = some state) {i : Nat} {p : Card σ}
    (hp : state.pages[i]? = some p) : p.HoldsPast past (place.page key i) := by
  cases h with
  | intro idle pages live => exact pages key state hstate i p hp

/-- The pages that a card keeps hold what was delivered for them. -/
theorem pages (h : c.HoldsPast past place) :
    c.carousels.AllPages fun key i => HoldsPast past (place.page key i) := by
  refine ⟨fun key state hstate => ?_, fun _ _ hstate _ _ hp => h.page hstate hp⟩
  rw [h.idle] at hstate
  cases hstate

theorem live (h : c.HoldsPast past place) {l : LiveLayout σ} (hl : c.live = some l) :
    HoldsDelivered past place c.settings.displayScale l := by
  cases h with
  | intro idle pages live => exact live l hl

theorem new (past : List ImageDelivery) (place : CardPlace) (s : LayoutSettings) :
    (Card.new s : Card σ).HoldsPast past place :=
  .intro (fun _ => rfl) (fun _ _ h => (nomatch h)) fun _ h => (nomatch h)

theorem withMaxWidth (h : c.HoldsPast past place) (width : Binary64) :
    (c.withMaxWidth width).HoldsPast past place :=
  .intro h.idle (fun _ _ hstate _ _ hp => h.page hstate hp) fun _ hl => h.live hl

theorem cleared (h : c.HoldsPast past place) : c.cleared.HoldsPast past place :=
  .intro h.idle (fun _ _ hstate _ _ hp => h.page hstate hp) fun _ hl => (nomatch hl)

/-- What is delivered elsewhere is of no account for a card and its pages. -/
theorem concat_of_elsewhere (h : c.HoldsPast past place) {e : ImageDelivery}
    (he : ¬place <+: e.place) : c.HoldsPast (past ++ [e]) place := by
  induction h with
  | intro idle pages live ih =>
    rename_i place c
    refine .intro idle (fun key state hstate i p hp => ih key state hstate i p hp fun hpage => ?_)
      fun l hl => (live l hl).concat_of_place_ne fun hplace => he (hplace ▸ List.prefix_refl _)
    exact he ((List.prefix_append place [(key, i)]).trans hpage)

/-- A card along a way holds what was delivered for its place. -/
theorem of_cardAt? (h : c.HoldsPast past place) {way : List (Nat × Nat)} {d : Card σ}
    (hd : c.cardAt? way = some d) :
    ∃ rest, c.placeAt? way = some rest ∧ d.HoldsPast past (place ++ rest) := by
  induction way generalizing c place with
  | nil =>
    cases hd
    exact ⟨[], rfl, (List.append_nil place).symm ▸ h⟩
  | cons hop way ih =>
    obtain ⟨carousel, page⟩ := hop
    obtain ⟨state, inner, hstate, hinner, hrest⟩ := exists_of_cardAt?_cons hd
    obtain ⟨n, spacing, extent, hn, -, hkept⟩ := exists_of_shownCarousel? hstate
    obtain ⟨rest, hplace, hholds⟩ := ih (h.page hkept hinner) hrest
    refine ⟨(⟨c.identity, n.path⟩, page) :: rest, ?_, ?_⟩
    · rw [placeAt?_cons hn hstate hinner, hplace, Option.map_some]
    · rwa [CardPlace.page, List.append_assoc] at hholds

end HoldsPast

variable [RelationSolver σ] {past : List ImageDelivery} {place : CardPlace} {c : Card σ}

/-! ## What keeps up with the past -/

/-- A rendering carries bitmaps over as they are, for the slots at the same paths that show the same
URLs. -/
theorem HoldsPast.renderBody (h : c.HoldsPast past place) (sizes : ImageSizes)
    (identity : CardIdentity) (items : List Item)
    (hpages : (arrangeAll c.settings sizes identity (bodySiblings c.settings sizes items) items 0 1
      c.carousels.beginPass).2.AllPages fun key i => HoldsPast past (place.page key i)) :
    (c.renderBody sizes identity items).1.HoldsPast past place := by
  obtain ⟨l, board, hrendered, -, -, hsettled⟩ := exists_settled_renderBody c sizes identity items
  rw [hrendered]
  refine .intro (fun _ => rfl) hpages.current fun t ht n hn i hslot x hx => ?_
  cases ht
  have hroot : l.root = bodyOutline c.settings sizes identity items c.carousels.beginPass :=
    hsettled.root_eq
  rw [hsettled.images_eq] at hx
  cases hbefore : c.live.filter fun _ => c.identity = identity with
  | none =>
    rw [hbefore] at hx
    cases hx
  | some before =>
    rw [hroot] at hn
    rw [hbefore, Option.elim_some, find?_carriedImages
      (nodup_ids_bodyOutline c.settings sizes identity items c.carousels.beginPass) hn] at hx
    have hlive : c.live = some before := (Option.filter_eq_some_iff.mp hbefore).1
    obtain ⟨o, ho, j, hoslot, hpath, hurl, hheld⟩ := exists_of_carried? hslot hx
    obtain ⟨e, he, hx⟩ := h.live hlive o ho j hoslot x hheld
    exact ⟨e, hpath ▸ hurl ▸ he, hx⟩

theorem survivesRendering_holdsPast (past : List ImageDelivery) :
    SurvivesRendering fun place => HoldsPast (σ := σ) past place where
  pages h := h.pages
  fresh _ _ _ _ := .new past _ _
  withMaxWidth h width := h.withMaxWidth width
  cleared h := h.cleared
  body sizes identity items {_ _} h hpages := h.renderBody sizes identity items hpages

omit [RelationSolver σ] in
/-- Scrolling leaves all bitmaps where they are. -/
theorem HoldsPast.scrollTo (h : c.HoldsPast past place) {t : Card σ} {node : Nat}
    {offset : Binary64} (ht : c.scrollTo? node offset = some t) : t.HoldsPast past place := by
  obtain ⟨l, n, spacing, extent, state, hl, hn, -, hslot, hstate, rfl⟩ := exists_of_scrollTo? ht
  have hpages : (c.carousels.put ⟨c.identity, n.path⟩
      { state with scroll := max offset 0 }).AllPages fun key i => HoldsPast past (place.page key i) :=
    h.pages.put fun _ _ => h.page hstate
  refine .intro h.idle hpages.current fun l' hl' => ?_
  cases hl'
  exact (h.live hl).congr rfl rfl

omit [RelationSolver σ] in
/-- Where a page gets a bitmap, this page and all others hold what was delivered for them. -/
theorem HoldsPast.pages_put (h : c.HoldsPast past place) {key : CarouselKey}
    {state : CarouselState (Card σ)} (hstate : c.carousels.get? key = some state) {page : Nat}
    {card : Card σ} (hpage : page < state.pages.length) {e : ImageDelivery}
    (he : place.page key page <+: e.place)
    (hcard : card.HoldsPast (past ++ [e]) (place.page key page)) :
    (c.carousels.put key { state with pages := state.pages.set page card }).AllPages
      fun other i => HoldsPast (past ++ [e]) (place.page other i) := by
  obtain ⟨rest, hrest⟩ := he
  have helsewhere : ∀ {other i}, place.page other i <+: e.place → other = key ∧ i = page :=
    fun h => CardPlace.page_prefix.mp (hrest ▸ h)
  refine .put_of (fun _ _ hprevious => ?_) (fun _ _ hkey hkept i p hp => ?_) fun i p hp => ?_
  · rw [h.idle] at hprevious
    cases hprevious
  · exact (h.page hkept hp).concat_of_elsewhere fun hprefix => hkey (helsewhere hprefix).1.symm
  · by_cases hi : i = page
    · subst hi
      rw [List.getElem?_set_self hpage] at hp
      cases hp
      exact hcard
    · rw [List.getElem?_set_ne (Ne.symm hi)] at hp
      exact (h.page hstate hp).concat_of_elsewhere fun hprefix => hi (helsewhere hprefix).2

/-- A card that takes a bitmap holds it, fitted for the view of its slot, and all others as
before. -/
theorem Takes.holdsPast {sizes : ImageSizes} {node : Nat} {url : String} {bitmap : Bitmap}
    {hops : List (Nat × Nat)} {a : Accepted σ} (h : Takes sizes node url bitmap hops c a)
    (hc : c.IsKept) (hpast : c.HoldsPast past place) :
    ∃ e, c.delivery? ⟨hops, node⟩ url bitmap = some e ∧
      a.card.HoldsPast (past ++ [{ e with place := place ++ e.place }]) place := by
  induction h generalizing place with
  | @here c l t n i board hl hn hid hshown hslot hurl hboard ht =>
    subst hid
    have hlaid := hc.isLaidOut hl
    refine ⟨_, delivery?_here (hlaid.shownNode?_eq hl hn hshown) url bitmap, ?_⟩
    simp only [List.append_nil]
    refine .intro hpast.idle (fun key state hstate i p hp => ?_) fun t' ht' => ?_
    · refine (hpast.page hstate hp).concat_of_elsewhere fun hprefix => ?_
      obtain ⟨rest, hplace⟩ := hprefix
      exact CardPlace.page_append_ne hplace
    · cases ht'
      exact hurl ▸ (hpast.live hl).concat_insert hlaid hn hslot ht.root_eq ht.images_eq
  | @page c inner l t n spacing extent state carousel page hops a board hl hn hid hshown hslot
      hstate hinner ha hboard ht ih =>
    subst hid
    have hlaid := hc.isLaidOut hl
    obtain ⟨e, he, hcard⟩ := ih (hc.page hstate (List.mem_of_getElem? hinner))
      (hpast.page hstate hinner)
    have hnode := hlaid.shownNode?_eq hl hn hshown
    have hshownState := shownCarousel?_eq hlaid hl hn hshown hslot hstate
    refine ⟨_, delivery?_through hnode hshownState hinner he, ?_⟩
    -- Seen from here, the place of the delivery begins with the page that took the bitmap.
    have hplace : place ++ (⟨c.identity, n.path⟩, page) :: e.place =
        place.page ⟨c.identity, n.path⟩ page ++ e.place := by
      simp [CardPlace.page]
    dsimp only
    rw [hplace]
    have hpages := hpast.pages_put hstate (List.getElem?_eq_some_iff.mp hinner).1
      (List.prefix_append _ e.place) hcard
    refine .intro hpast.idle hpages.current fun t' ht' => ?_
    cases ht'
    have hlive := (hpast.live hl).congr ht.root_eq ht.images_eq
    exact hlive.concat_of_place_ne CardPlace.page_append_ne

/-! ## Cards with their past -/

/-- A card that came about, with the bitmaps that were delivered to it until then. -/
inductive ReachableAfter : List ImageDelivery → Card σ → Prop
  | new (s : LayoutSettings) : ReachableAfter [] (new s)
  | withMaxWidth {past : List ImageDelivery} {c : Card σ} (hc : ReachableAfter past c)
      (maxWidth : Binary64) : ReachableAfter past (c.withMaxWidth maxWidth)
  | render {past : List ImageDelivery} {c : Card σ} (hc : ReachableAfter past c)
      (sizes : ImageSizes) (identity : CardIdentity) (t : Template) :
      ReachableAfter past (c.render sizes identity t).1
  | renderBody {past : List ImageDelivery} {c : Card σ} (hc : ReachableAfter past c)
      (sizes : ImageSizes) (identity : CardIdentity) (items : List Item) :
      ReachableAfter past (c.renderBody sizes identity items).1
  | accept {past : List ImageDelivery} {c : Card σ} {sizes : ImageSizes} {identity : CardIdentity}
      {route : ImageRoute} {url : String} {bitmap : Bitmap} {a : Accepted σ} {e : ImageDelivery}
      (hc : ReachableAfter past c) (ha : c.accept sizes identity route url bitmap = some a)
      (he : c.delivery? route url bitmap = some e) : ReachableAfter (past ++ [e]) a.card
  | scrollTo {past : List ImageDelivery} {c t : Card σ} {node : Nat} {offset : Binary64}
      (hc : ReachableAfter past c) (ht : c.scrollTo? node offset = some t) : ReachableAfter past t

theorem ReachableAfter.reachable (h : c.ReachableAfter past) : c.Reachable := by
  induction h with
  | new s => exact .new s
  | withMaxWidth _ maxWidth ih => exact ih.withMaxWidth maxWidth
  | render _ sizes identity t ih => exact ih.render sizes identity t
  | renderBody _ sizes identity items ih => exact ih.renderBody sizes identity items
  | accept _ ha _ ih => exact ih.accept ha
  | scrollTo _ ht ih => exact ih.scrollTo ht

/-- Every card that came about holds what its past says. -/
theorem ReachableAfter.holdsPast (h : c.ReachableAfter past) : c.HoldsPast past [] := by
  induction h with
  | new s => exact .new [] [] s
  | withMaxWidth _ maxWidth ih => exact ih.withMaxWidth maxWidth
  | @render past c _ sizes identity t ih =>
    exact (survivesRendering_holdsPast past).renderPage t identity [] c ih
  | @renderBody past c _ sizes identity items ih =>
    exact (survivesRendering_holdsPast past).renderBody identity items [] ih
  | accept hc ha he ih =>
    obtain ⟨d, hd, hholds⟩ := (takes_of_accept hc.reachable.isKept ha).holdsPast
      hc.reachable.isKept ih
    cases he.symm.trans hd
    exact hholds
  | scrollTo _ ht ih => exact ih.scrollTo ht

/-- Every card that came about has a past. -/
theorem Reachable.exists_past (h : c.Reachable) : ∃ past, c.ReachableAfter past := by
  induction h with
  | new s => exact ⟨[], .new s⟩
  | withMaxWidth _ maxWidth ih => exact ih.imp fun _ hc => hc.withMaxWidth maxWidth
  | render _ sizes identity t ih => exact ih.imp fun _ hc => hc.render sizes identity t
  | renderBody _ sizes identity items ih =>
    exact ih.imp fun _ hc => hc.renderBody sizes identity items
  | accept hc ha ih =>
    obtain ⟨past, hpast⟩ := ih
    obtain ⟨e, he, -⟩ := (takes_of_accept hc.isKept ha).holdsPast hc.isKept hpast.holdsPast
    exact ⟨_, hpast.accept ha he⟩
  | scrollTo _ ht ih => exact ih.imp fun _ hc => hc.scrollTo ht

/-- On every card that came about, and on all pages along its ways, an image that holds a bitmap
holds the last one that was delivered for its slot under its URL, fitted for the view that the slot
had at that time. It is fitted for the view that the slot has now if and only if that makes it as
wide; so it is as long as the view draws bitmaps at the same width in pixels, and then it has this
width, unless its size or the limit of edges keeps it as it arrived. -/
theorem held_bitmap_is_fitted_on_delivery (hc : c.ReachableAfter past) :
    ∀ way d, c.cardAt? way = some d → ∃ place, c.placeAt? way = some place ∧
      ∀ l, d.live = some l → ∀ n ∈ l.root.nodes, ∀ i, n.slot = .image i →
      ∀ x, l.images.find? n.id = some x →
      ∃ e, latest? past place n.path i.url = some e ∧ x.size = e.bitmap.size ∧
        let scale := d.settings.displayScale
        x.bitmap = e.view.fit scale e.bitmap ∧
        (x.bitmap = n.view.fit scale e.bitmap ↔
          x.bitmap.size.width = (n.view.fit scale e.bitmap).size.width) ∧
        (e.view.drawnWidth? scale = n.view.drawnWidth? scale →
          x.bitmap = n.view.fit scale e.bitmap ∧
          ∀ width, n.view.drawnWidth? scale = some width →
            x.bitmap.size.width = width ∨ ¬e.bitmap.Scales width ∧ x.bitmap = e.bitmap) := by
  intro way d hd
  obtain ⟨place, hplace, hholds⟩ := hc.holdsPast.of_cardAt? hd
  refine ⟨place, hplace, fun l hl n hn i hslot x hx => ?_⟩
  obtain ⟨e, he, rfl⟩ := hholds.live hl n hn i hslot x hx
  refine ⟨e, he, rfl, rfl, View.fit_eq_fit_iff, fun hwidth => ?_⟩
  have hfit := View.fit_congr hwidth e.bitmap
  refine ⟨hfit, fun width hdrawn => ?_⟩
  dsimp only
  rw [hfit]
  exact View.width_fit hdrawn e.bitmap

/-! ## A message that is one image -/

section OneImage

variable (s : LayoutSettings) (sizes : ImageSizes) (identity : CardIdentity) (i : ImageItem)

/-- A card that shows one image takes a bitmap for it and holds one then. -/
theorem exists_accept_render_image (hurl : isFetched i.url = true) (bitmap : Bitmap) :
    ∃ a t, ((new s : Card σ).render sizes identity ⟨1, some [.image false i]⟩).1.accept sizes
        identity (.here 1) i.url bitmap = some a ∧
      a.card.settings = s ∧ a.card.identity = identity ∧ a.card.live = some t ∧
      t.root = rootNode s
        [⟨1, itemPath "body" 0, i.view, false, false, .image (i.slot false), []⟩] ∧
      ∃ x, t.images.find? 1 = some x := by
  have hkept := (Reachable.render (.new (σ := σ) s) sizes identity
    ⟨1, some [.image false i]⟩).isKept
  have hrequested : ⟨identity, .here 1, i.url⟩ ∈
      ((new s : Card σ).render sizes identity ⟨1, some [.image false i]⟩).1.requests := by
    rw [requests_render_image s sizes identity i hurl]
    exact List.mem_singleton_self _
  obtain ⟨a, ha, -⟩ := exists_accept hkept hrequested sizes bitmap
  obtain ⟨l, board, hrendered, -, -, hroot, -⟩ :=
    (new s : Card σ).exists_renderPage identity sizes 1 [.image false i] rfl
  rw [bodyOutline_image] at hroot
  refine ⟨a, ?_⟩
  cases takes_of_accept hkept ha with
  | @here _ before t n j after hbefore hn hid hshown hslot hurl hboard ht =>
    have hsame : before = l := by
      rw [render, hrendered] at hbefore
      exact (Option.some.inj hbefore).symm
    have hfirst : ((new s : Card σ).render sizes identity ⟨1, some [.image false i]⟩).1 = _ :=
      hrendered
    refine ⟨t, ha, congrArg settings hfirst, congrArg Card.identity hfirst, rfl, ?_, ?_⟩
    · rw [ht.root_eq, hsame, hroot]
      rfl
    · rw [ht.images_eq]
      exact ⟨_, (Table.find?_insert ..).trans (if_pos rfl)⟩

/-- The next message takes the bitmap over if it is an image under the same URL. -/
theorem exists_live_render_image {c : Card σ} {t : LiveLayout σ} {j : ImageItem} {x : LoadedImage}
    (hidentity : c.identity = identity) (ht : c.live = some t)
    (hroot : t.root = rootNode s
      [⟨1, itemPath "body" 0, j.view, false, false, .image (j.slot false), []⟩])
    (hx : t.images.find? 1 = some x) (hurl : j.url = i.url) :
    ∃ l, (c.render sizes identity ⟨1, some [.image false i]⟩).1.live = some l ∧
      (c.render sizes identity ⟨1, some [.image false i]⟩).1.settings = c.settings ∧
      l.root = rootNode c.settings
        [⟨1, itemPath "body" 0, i.view, false, false, .image (i.slot false), []⟩] ∧
      l.images.find? 1 = some x := by
  obtain ⟨l, board, hrendered, -, -, hafter, himages⟩ :=
    c.exists_renderPage identity sizes 1 [.image false i] rfl
  have hids := nodup_ids_bodyOutline c.settings sizes identity [.image false i]
    c.carousels.beginPass
  rw [← hafter] at hids
  rw [bodyOutline_image] at hafter
  have hn : ⟨1, itemPath "body" 0, i.view, false, false, .image (i.slot false), []⟩ ∈
      l.root.nodes := by
    rw [hafter]
    simp [rootNode, OutlineNode.nodes, outlineNodes]
  refine ⟨l, by rw [render, hrendered], by rw [render, hrendered], hafter, ?_⟩
  rw [himages, ht, Option.filter_some_pos (by simpa using hidentity), Option.elim_some]
  refine (find?_carriedImages hids hn).trans ?_
  simp [carried?, hroot, rootNode, OutlineNode.nodes, outlineNodes, ImageItem.slot, hurl, hx]

end OneImage

/-- A slot made twice as wide after its bitmap arrived: it still holds the bitmap as it was fitted
for the narrow slot, where the wide one would have it twice as wide. -/
theorem held_bitmap_is_fitted_on_delivery_of_widened :
    let image (width : Binary64) : ImageItem :=
      ⟨{ View.plain with width := .fixed width }, "a", .aspectFit, none, none⟩
    let first : Card (Linear.Tableau .exact) :=
      ((new {}).render .empty ⟨"m", 1⟩ ⟨1, some [.image false (image 40)]⟩).1
    ∃ a, first.accept .empty ⟨"m", 1⟩ (.here 1) "a" (.still ⟨100, 50⟩) = some a ∧
      let c := (a.card.render .empty ⟨"m", 1⟩ ⟨1, some [.image false (image 80)]⟩).1
      ∃ e l n x, c.ReachableAfter [e] ∧ c.live = some l ∧ n ∈ l.root.nodes ∧
        n.view = (image 80).view ∧ l.images.find? n.id = some x ∧ x.bitmap = .still ⟨80, 40⟩ ∧
        n.view.fit 2 (.still ⟨100, 50⟩) = .still ⟨160, 80⟩ := by
  intro image first
  let bitmap : Bitmap := .still ⟨100, 50⟩
  obtain ⟨a, t, ha, hsettings, hidentity, ht, hroot, x, hx⟩ := exists_accept_render_image
    (σ := Linear.Tableau .exact) {} .empty ⟨"m", 1⟩ (image 40) (by decide) bitmap
  obtain ⟨l, hl, hkept, hroot, hx⟩ :=
    exists_live_render_image {} .empty ⟨"m", 1⟩ (image 80) hidentity ht hroot hx rfl
  refine ⟨a, ha, ?_⟩
  intro c
  let e : ImageDelivery := ⟨[], itemPath "body" 0, "a", (image 40).view, bitmap⟩
  have hnode := shownNode?_render_image (σ := Linear.Tableau .exact) {} .empty ⟨"m", 1⟩ (image 40)
  have hc : c.ReachableAfter [e] :=
    .render (.accept (.render (.new {}) _ _ _) ha (delivery?_here hnode "a" bitmap)) _ _ _
  let n : OutlineNode :=
    ⟨1, itemPath "body" 0, (image 80).view, false, false, .image ((image 80).slot false), []⟩
  have hn : n ∈ l.root.nodes := by
    rw [hroot]
    simp [rootNode, OutlineNode.nodes, outlineNodes, n]
  obtain ⟨place, hplace, hheld⟩ := held_bitmap_is_fitted_on_delivery hc [] c rfl
  cases hplace
  obtain ⟨d, hd, -, hbitmap, -⟩ := hheld l hl n hn _ rfl x hx
  have hlatest : latest? ([] ++ [e]) [] n.path "a" = some e := by
    rw [latest?_concat, if_pos ⟨rfl, rfl, rfl⟩]
  cases hlatest.symm.trans hd
  have hscale : c.settings.displayScale = 2 :=
    congrArg LayoutSettings.displayScale (hkept.trans hsettings)
  rw [hscale] at hbitmap
  refine ⟨e, l, n, x, hc, hl, hn, rfl, hx, hbitmap.trans ?_, ?_⟩
  · decide +kernel
  · decide +kernel

end Card
end MessageCard
