import Mathlib.Data.List.Flatten
import Mathlib.Data.List.Nodup
import MessageCard.Proofs.Card.Reach

/-!
# Requests and their answers

The bitmaps that a card asks for are those that its layout lacks: of each image that is shown
without a bitmap, on the card itself or on a page of a carousel, to any depth. No two requests go
the same way, and each of them can be answered at any time; the answer takes away its request and
leaves all others, so they can be answered in any order.
-/
namespace MessageCard

/-- A layout lacks the bitmap of an image, on the way to it through the pages of carousels. -/
inductive LayoutOf.Lacks : LayoutTree → ImageRoute → String → Prop
  | image {t : LayoutTree} {n : LayoutNode} {i : ImageContent} (hn : n ∈ t.nodes)
      (hshown : n.hidden = false) (hcontent : n.content = .image i) (hmissing : i.bitmap = none)
      (hfetched : isFetched i.url = true) : Lacks t (.here n.id) i.url
  | page {t inner : LayoutTree} {n : LayoutNode} {spacing scroll offset : Binary64}
      {pages : List (PageOf LayoutTree)} {page : Nat} {route : ImageRoute} {url : String}
      (hn : n ∈ t.nodes) (hshown : n.hidden = false)
      (hcontent : n.content = .carousel spacing scroll pages)
      (hpage : pages[page]? = some ⟨offset, some inner⟩) (hinner : Lacks inner route url) :
      Lacks t (route.through n.id page) url

namespace Card

variable {σ : Type}

/-- A request of a page, as the card around it makes it. -/
def relay (identity : CardIdentity) (carousel page : Nat) (r : ImageRequest) : ImageRequest :=
  ⟨identity, r.route.through carousel page, r.url⟩

/-- The requests of the pages of a carousel. -/
def pageRequests (identity : CardIdentity) (carousel : Nat) (pages : List (Card σ)) :
    List ImageRequest :=
  pages.zipIdx.flatMap fun p => p.1.requests.map (relay identity carousel p.2)

/-- The requests of one node. -/
def requestsAt (c : Card σ) (images : Table Nat LoadedImage) (n : OutlineNode) :
    List ImageRequest :=
  if n.hidden then []
  else match n.slot with
    | .image i =>
      if isFetched i.url && !images.contains n.id then [⟨c.identity, .here n.id, i.url⟩] else []
    | .carousel _ _ =>
      (c.carousel? n.path).elim [] fun s => pageRequests c.identity n.id s.pages
    | _ => []

theorem pageRequests_attach (identity : CardIdentity) (carousel : Nat) (pages : List (Card σ)) :
    (pages.attach.zipIdx.flatMap fun p => p.1.1.requests.map (relay identity carousel p.2)) =
      pageRequests identity carousel pages := by
  have hpages : pages.zipIdx = pages.attach.zipIdx.map (Prod.map Subtype.val id) := by
    rw [← List.zipIdx_map, List.attach_map_subtype_val]
  rw [pageRequests, hpages, List.flatMap_map]
  rfl

/-- A card makes the requests of its nodes, one after another. -/
theorem requests_of_live {c : Card σ} {l : LiveLayout σ} (hl : c.live = some l) :
    c.requests = l.root.nodes.flatMap (c.requestsAt l.images) := by
  rw [requests, hl]
  refine List.flatMap_congr fun n _ => ?_
  unfold requestsAt
  split
  · rfl
  · cases hslot : n.slot with
    | carousel spacing extent =>
      dsimp only
      split
      case h_1 hnone => rw [hnone]; rfl
      case h_2 s hsome =>
        rw [hsome]
        exact pageRequests_attach c.identity n.id s.pages
    | _ => rfl

/-! ## Requests are what a layout lacks -/

/-- The page of a request among those of a carousel. -/
theorem mem_pageRequests {identity : CardIdentity} {carousel : Nat} {pages : List (Card σ)}
    {r : ImageRequest} : r ∈ pageRequests identity carousel pages ↔
      ∃ page p q, pages[page]? = some p ∧ q ∈ p.requests ∧ r = relay identity carousel page q := by
  unfold pageRequests
  constructor
  · intro hr
    obtain ⟨⟨p, page⟩, hp, hr⟩ := List.mem_flatMap.mp hr
    obtain ⟨q, hq, rfl⟩ := List.mem_map.mp hr
    exact ⟨page, p, q, List.mem_zipIdx_iff_getElem?.mp hp, hq, rfl⟩
  · rintro ⟨page, p, q, hp, hq, rfl⟩
    exact List.mem_flatMap.mpr
      ⟨(p, page), List.mem_zipIdx_iff_getElem?.mpr hp, List.mem_map.mpr ⟨q, hq, rfl⟩⟩

/-- A request at a node is for its image, or comes from a page of its carousel. -/
theorem mem_requestsAt {c : Card σ} {images : Table Nat LoadedImage} {n : OutlineNode}
    {r : ImageRequest} : r ∈ c.requestsAt images n ↔ n.hidden = false ∧
      ((∃ i, n.slot = .image i ∧ isFetched i.url = true ∧ images.find? n.id = none ∧
          r = ⟨c.identity, .here n.id, i.url⟩) ∨
        ∃ spacing extent state page p q, n.slot = .carousel spacing extent ∧
          c.carousel? n.path = some state ∧ state.pages[page]? = some p ∧ q ∈ p.requests ∧
          r = relay c.identity n.id page q) := by
  unfold requestsAt
  cases hhidden : n.hidden with
  | true => simp
  | false =>
    cases hslot : n.slot with
    | image i =>
      simp only [Bool.false_eq_true, if_false, List.mem_ite_nil_right, Bool.and_eq_true,
        Table.contains, Bool.not_eq_true', Option.isSome_eq_false_iff, Option.isNone_iff_eq_none,
        List.mem_singleton, true_and]
      constructor
      · rintro ⟨⟨hfetched, hmissing⟩, rfl⟩
        exact .inl ⟨i, rfl, hfetched, hmissing, rfl⟩
      · rintro (⟨j, hj, hfetched, hmissing, rfl⟩ | ⟨_, _, _, _, _, _, hj, _⟩)
        · cases hj
          exact ⟨⟨hfetched, hmissing⟩, rfl⟩
        · cases hj
    | carousel spacing extent =>
      cases hstate : c.carousel? n.path with
      | none => simp
      | some state =>
        simp only [Bool.false_eq_true, if_false, Option.elim_some, mem_pageRequests, true_and]
        constructor
        · rintro ⟨page, p, q, hp, hq, rfl⟩
          exact .inr ⟨spacing, extent, state, page, p, q, rfl, rfl, hp, hq, rfl⟩
        · rintro (⟨i, hi, _⟩ | ⟨_, _, state', page, p, q, _, hstate', hp, hq, rfl⟩)
          · cases hi
          · cases hstate'
            exact ⟨page, p, q, hp, hq, rfl⟩
    | _ => simp

theorem exists_live_of_mem {c : Card σ} {r : ImageRequest} (hr : r ∈ c.requests) :
    ∃ l, c.live = some l := by
  cases hl : c.live with
  | none => simp [requests, hl] at hr
  | some l => exact ⟨l, rfl⟩

/-- All requests of a card are made in its name. -/
theorem identity_of_mem_requests {c : Card σ} {r : ImageRequest} (hr : r ∈ c.requests) :
    r.identity = c.identity := by
  obtain ⟨l, hl⟩ := exists_live_of_mem hr
  rw [requests_of_live hl] at hr
  obtain ⟨n, -, hr⟩ := List.mem_flatMap.mp hr
  obtain ⟨-, ⟨i, -, -, -, rfl⟩ | ⟨_, _, _, _, _, _, -, -, -, -, rfl⟩⟩ := mem_requestsAt.mp hr
  · rfl
  · rfl

/-- What an image that is shown displays. -/
theorem ShowsNode.content_image {c : Card σ} {images : Table Nat LoadedImage} {t : LayoutNode}
    {n : OutlineNode} {i : ImageSlot} (h : c.ShowsNode images t n) (hshown : n.hidden = false)
    (hslot : n.slot = .image i) :
    ∃ content, t.content = .image content ∧ content.url = i.url ∧
      content.bitmap = (images.find? n.id).map (·.bitmap) := by
  obtain ⟨solution, m, hcontent⟩ := h.content hshown
  rw [hcontent]
  simp only [Drawing.content, hslot]
  exact ⟨_, rfl, rfl, rfl⟩

/-- What a carousel that is shown displays: the layouts of the pages that the card keeps. -/
theorem ShowsNode.content_carousel {c : Card σ} {images : Table Nat LoadedImage} {t : LayoutNode}
    {n : OutlineNode} {spacing : Binary64} {extent : Extent} (h : c.ShowsNode images t n)
    (hshown : n.hidden = false) (hslot : n.slot = .carousel spacing extent) :
    ∃ scroll pages, t.content = .carousel spacing scroll pages ∧
      pages.map (·.tree) = (c.carousel? n.path).elim [] fun s => s.pages.map tree? := by
  obtain ⟨solution, m, hcontent⟩ := h.content hshown
  rw [hcontent]
  simp only [Drawing.content, hslot, hshown, Bool.false_eq_true, if_false, strip?]
  cases c.carousel? n.path with
  | none => exact ⟨_, _, rfl, rfl⟩
  | some state => exact ⟨_, _, rfl, Drawing.map_tree_pages _ _⟩

/-- What displays an image is an image. -/
theorem ShowsNode.exists_image {c : Card σ} {images : Table Nat LoadedImage} {t : LayoutNode}
    {n : OutlineNode} {content : ImageContent} (h : c.ShowsNode images t n)
    (hshown : n.hidden = false) (hcontent : t.content = .image content) :
    ∃ i, n.slot = .image i ∧ content.url = i.url ∧
      content.bitmap = (images.find? n.id).map (·.bitmap) := by
  cases hslot : n.slot with
  | image i =>
    obtain ⟨content', hcontent', hurl, hbitmap⟩ := h.content_image hshown hslot
    cases hcontent.symm.trans hcontent'
    exact ⟨i, rfl, hurl, hbitmap⟩
  | carousel spacing extent =>
    obtain ⟨scroll, pages, hcontent', -⟩ := h.content_carousel hshown hslot
    cases hcontent.symm.trans hcontent'
  | _ =>
    obtain ⟨solution, m, hcontent'⟩ := h.content hshown
    simp [hcontent, Drawing.content, hslot] at hcontent'

/-- What displays pages is a carousel. -/
theorem ShowsNode.exists_carousel {c : Card σ} {images : Table Nat LoadedImage} {t : LayoutNode}
    {n : OutlineNode} {spacing scroll : Binary64} {pages : List (PageOf LayoutTree)}
    (h : c.ShowsNode images t n) (hshown : n.hidden = false)
    (hcontent : t.content = .carousel spacing scroll pages) :
    ∃ extent, n.slot = .carousel spacing extent ∧
      pages.map (·.tree) = (c.carousel? n.path).elim [] fun s => s.pages.map tree? := by
  cases hslot : n.slot with
  | carousel spacing' extent =>
    obtain ⟨scroll', pages', hcontent', htrees⟩ := h.content_carousel hshown hslot
    cases hcontent.symm.trans hcontent'
    exact ⟨extent, rfl, htrees⟩
  | image i =>
    obtain ⟨content, hcontent', -⟩ := h.content_image hshown hslot
    cases hcontent.symm.trans hcontent'
  | _ =>
    obtain ⟨solution, m, hcontent'⟩ := h.content hshown
    simp [hcontent, Drawing.content, hslot] at hcontent'

/-! ## Where requests go -/

/-- Lists that differ in a key of their items have no item in common. -/
theorem nodup_flatMap_of_keys {α β κ : Type} {xs : List α} {f : α → List β} (key : α → κ)
    (keyOf : β → κ) (hkeys : (xs.map key).Nodup)
    (hf : ∀ x ∈ xs, (f x).Nodup ∧ ∀ b ∈ f x, keyOf b = key x) : (xs.flatMap f).Nodup := by
  refine List.nodup_flatMap.mpr ⟨fun x hx => (hf x hx).1, ?_⟩
  have hpairs : xs.Pairwise fun x y => key x ≠ key y := List.pairwise_map.mp hkeys
  refine hpairs.imp_of_mem fun {x y} hx hy hne b hbx hby => ?_
  exact hne (((hf x hx).2 b hbx).symm.trans ((hf y hy).2 b hby))

end Card

namespace ImageRoute

/-- Where a way begins: at a carousel, or at the image itself. -/
def firstNode (r : ImageRoute) : Nat := (r.hops.head?.map (·.1)).getD r.node

/-- The page on which a way goes on. -/
def firstPage (r : ImageRoute) : Nat := (r.hops.head?.map (·.2)).getD 0

theorem through_injective (carousel page : Nat) :
    Function.Injective fun r : ImageRoute => r.through carousel page := by
  rintro ⟨hops, node⟩ ⟨hops', node'⟩ h
  cases h
  rfl

end ImageRoute

namespace Card

/-- The requests of the pages of a carousel go different ways, if those of each page do. -/
theorem nodup_pageRequests {identity : CardIdentity} {carousel : Nat} {pages : List (Card σ)}
    (h : ∀ p ∈ pages, (p.requests.map (·.route)).Nodup) :
    ((pageRequests identity carousel pages).map (·.route)).Nodup := by
  rw [pageRequests, List.map_flatMap]
  refine nodup_flatMap_of_keys (·.2) ImageRoute.firstPage ?_ fun x hx => ?_
  · rw [List.zipIdx_map_snd]
    exact List.nodup_range'
  obtain ⟨p, page⟩ := x
  have hp : p ∈ pages := List.mem_of_getElem? (List.mem_zipIdx_iff_getElem?.mp hx)
  have hroutes : (p.requests.map (relay identity carousel page)).map (·.route) =
      (p.requests.map (·.route)).map (·.through carousel page) := by
    rw [List.map_map, List.map_map]
    rfl
  rw [hroutes]
  refine ⟨(h p hp).map (ImageRoute.through_injective carousel page), fun b hb => ?_⟩
  obtain ⟨r, -, rfl⟩ := List.mem_map.mp hb
  rfl

theorem firstNode_of_mem {c : Card σ} {images : Table Nat LoadedImage} {n : OutlineNode}
    {r : ImageRequest} (hr : r ∈ c.requestsAt images n) : r.route.firstNode = n.id := by
  obtain ⟨-, ⟨i, -, -, -, rfl⟩ | ⟨_, _, _, _, _, _, -, -, -, -, rfl⟩⟩ := mem_requestsAt.mp hr
  · rfl
  · rfl

/-! ## Where a request falls away -/

/-- Where one list of several loses an item that is in no other, so does the whole. -/
theorem flatMap_erase {α β : Type} [DecidableEq β] {before after : List α} {x y : α}
    {f g : α → List β} {b : β} (hnodup : ((before ++ x :: after).flatMap f).Nodup) (hb : b ∈ f x)
    (hbefore : ∀ z ∈ before, g z = f z) (hafter : ∀ z ∈ after, g z = f z)
    (hy : g y = (f x).erase b) :
    (before ++ y :: after).flatMap g = ((before ++ x :: after).flatMap f).erase b := by
  rw [List.flatMap_append, List.flatMap_cons] at hnodup ⊢
  rw [List.flatMap_append, List.flatMap_cons, List.flatMap_congr hbefore,
    List.flatMap_congr hafter, hy]
  have hnot : b ∉ before.flatMap f := by
    intro hmem
    have hdisjoint := (List.nodup_append.mp hnodup).2.2
    exact hdisjoint b hmem b (List.mem_append_left _ hb) rfl
  rw [List.erase_append_right _ hnot, List.erase_append_left _ hb]

theorem map_erase_of_injOn {α β : Type} [DecidableEq α] [DecidableEq β] {f : α → β} {a : α} :
    ∀ {xs : List α}, (∀ x ∈ xs, f x = f a → x = a) → (xs.erase a).map f = (xs.map f).erase (f a)
  | [], _ => rfl
  | x :: xs, h => by
    have hrest : ∀ y ∈ xs, f y = f a → y = a := fun y hy => h y (List.mem_cons_of_mem _ hy)
    by_cases hx : x = a
    · subst hx
      simp
    · have hfx : f x ≠ f a := fun he => hx (h x List.mem_cons_self he)
      rw [List.erase_cons_tail (by simpa using hx), List.map_cons, List.map_cons,
        List.erase_cons_tail (by simpa using hfx), map_erase_of_injOn hrest]

/-- When a page no longer makes one of its requests, neither does its carousel. -/
theorem pageRequests_set {identity : CardIdentity} {carousel page : Nat} {pages : List (Card σ)}
    {p p' : Card σ} {q : ImageRequest} (hp : pages[page]? = some p) (hq : q ∈ p.requests)
    (hp' : p'.requests = p.requests.erase q)
    (hnodup : (pageRequests identity carousel pages).Nodup) :
    pageRequests identity carousel (pages.set page p') =
      (pageRequests identity carousel pages).erase (relay identity carousel page q) := by
  obtain ⟨hlt, rfl⟩ := List.getElem?_eq_some_iff.mp hp
  have hsplit : ∀ x, (pages.take page ++ x :: pages.drop (page + 1)).zipIdx =
      (pages.take page).zipIdx ++ (x, page) :: (pages.drop (page + 1)).zipIdx (page + 1) := by
    intro x
    rw [List.zipIdx_append, List.zipIdx_cons, List.length_take, Nat.min_eq_left hlt.le,
      Nat.zero_add]
  have hpages : pages.zipIdx = (pages.take page).zipIdx ++
      (pages[page], page) :: (pages.drop (page + 1)).zipIdx (page + 1) := by
    rw [← hsplit, List.cons_getElem_drop_succ, List.take_append_drop]
  unfold pageRequests at hnodup ⊢
  rw [List.set_eq_take_append_cons_drop, if_pos hlt, hsplit, hpages]
  rw [hpages] at hnodup
  refine flatMap_erase hnodup (List.mem_map_of_mem hq) (fun _ _ => rfl) (fun _ _ => rfl) ?_
  dsimp only
  rw [hp']
  exact map_erase_of_injOn fun r hr heq => by
    have hidentity : r.identity = q.identity :=
      (identity_of_mem_requests hr).trans (identity_of_mem_requests hq).symm
    obtain ⟨_, ⟨hops, node⟩, url⟩ := r
    obtain ⟨_, ⟨hops', node'⟩, url'⟩ := q
    cases hidentity
    cases heq
    rfl

/-- What a node requests depends on its own bitmap and pages alone. -/
theorem requestsAt_congr {c c' : Card σ} {images images' : Table Nat LoadedImage}
    {n : OutlineNode} (hidentity : c'.identity = c.identity)
    (himages : images'.find? n.id = images.find? n.id)
    (hcarousel : c'.carousel? n.path = c.carousel? n.path) :
    c'.requestsAt images' n = c.requestsAt images n := by
  unfold requestsAt Table.contains
  rw [hidentity, himages, hcarousel]

/-- A carousel that is shown makes the requests of its pages. -/
theorem requestsAt_carousel {c : Card σ} {images : Table Nat LoadedImage} {n : OutlineNode}
    {spacing : Binary64} {extent : Extent} {state : CarouselState (Card σ)}
    (hshown : n.hidden = false) (hslot : n.slot = .carousel spacing extent)
    (hstate : c.carousel? n.path = some state) :
    c.requestsAt images n = pageRequests c.identity n.id state.pages := by
  simp [requestsAt, hshown, hslot, hstate]

/-- A request that goes through a page of a carousel is one of that page. -/
theorem mem_requests_of_page {c inner : Card σ} {images : Table Nat LoadedImage} {n : OutlineNode}
    {spacing : Binary64} {extent : Extent} {state : CarouselState (Card σ)} {page node : Nat}
    {hops : List (Nat × Nat)} {url : String} (hslot : n.slot = .carousel spacing extent)
    (hstate : c.carousel? n.path = some state) (hinner : state.pages[page]? = some inner)
    (h : ⟨c.identity, ⟨(n.id, page) :: hops, node⟩, url⟩ ∈ c.requestsAt images n) :
    ⟨inner.identity, ⟨hops, node⟩, url⟩ ∈ inner.requests := by
  obtain ⟨-, ⟨i, hi, -⟩ | ⟨_, _, state', page', p, q, -, hstate', hp, hq, hrelay⟩⟩ :=
    mem_requestsAt.mp h
  · cases hslot.symm.trans hi
  · cases hstate.symm.trans hstate'
    obtain ⟨_, ⟨hops', node'⟩, url'⟩ := q
    cases hrelay
    cases hinner.symm.trans hp
    cases identity_of_mem_requests hq
    exact hq

variable [RelationSolver σ]

/-- A card requests what its layout lacks. -/
def RequestsItsLacks (c : Card σ) : Prop :=
  ∀ r : ImageRequest, r ∈ c.requests ↔
    r.identity = c.identity ∧ ∃ t, c.tree? = some t ∧ t.Lacks r.route r.url

section OneLevel

variable {c : Card σ} {l : LiveLayout σ}

/-- What a card requests its layout lacks, if this is so of its pages. -/
theorem lacks_of_mem_requests (hl : c.live = some l) (hlaid : c.IsLaidOut l)
    (hpages : ∀ {path : String} {state : CarouselState (Card σ)} {page : Nat} {p : Card σ},
      c.carousel? path = some state → state.pages[page]? = some p → p.RequestsItsLacks)
    {r : ImageRequest} (hr : r ∈ c.requests) : l.tree.Lacks r.route r.url := by
  rw [requests_of_live hl] at hr
  obtain ⟨n, hn, hr⟩ := List.mem_flatMap.mp hr
  obtain ⟨t, ht, hshows⟩ := (exists_of_forall₂ hlaid.shows).2 n hn
  obtain ⟨hshown, hr⟩ := mem_requestsAt.mp hr
  have htshown : t.hidden = false := hshows.hidden_eq.trans hshown
  rcases hr with ⟨i, hslot, hfetched, hmissing, rfl⟩ |
    ⟨spacing, extent, state, page, p, q, hslot, hstate, hp, hq, rfl⟩
  · obtain ⟨content, hcontent, hurl, hbitmap⟩ := hshows.content_image hshown hslot
    rw [hmissing, Option.map_none] at hbitmap
    have hlacks := LayoutOf.Lacks.image ht htshown hcontent hbitmap (hurl ▸ hfetched)
    rwa [hshows.id_eq, hurl] at hlacks
  · obtain ⟨scroll, pages, hcontent, htrees⟩ := hshows.content_carousel hshown hslot
    obtain ⟨-, inner, hinner, hlacks⟩ := (hpages hstate hp q).mp hq
    have hpage : (pages.map (·.tree))[page]? = some (some inner) := by
      rw [htrees, hstate, Option.elim_some, List.getElem?_map, hp, Option.map_some, hinner]
    rw [List.getElem?_map, Option.map_eq_some_iff] at hpage
    obtain ⟨⟨offset, _⟩, hpage, rfl⟩ := hpage
    have hlacks := LayoutOf.Lacks.page ht htshown hcontent hpage hlacks
    rwa [hshows.id_eq] at hlacks

/-- What its layout lacks a card requests, if this is so of its pages. -/
theorem mem_requests_of_lacks (hl : c.live = some l) (hlaid : c.IsLaidOut l)
    (hpages : ∀ {path : String} {state : CarouselState (Card σ)} {page : Nat} {p : Card σ},
      c.carousel? path = some state → state.pages[page]? = some p → p.RequestsItsLacks)
    {route : ImageRoute} {url : String} (h : l.tree.Lacks route url) :
    ⟨c.identity, route, url⟩ ∈ c.requests := by
  have hnodes := (exists_of_forall₂ hlaid.shows).1
  rw [requests_of_live hl]
  cases h with
  | @image _ t i ht hshown hcontent hmissing hfetched =>
    obtain ⟨n, hn, hshows⟩ := hnodes t ht
    have hnshown : n.hidden = false := hshows.hidden_eq.symm.trans hshown
    obtain ⟨j, hslot, hurl, hbitmap⟩ := hshows.exists_image hnshown hcontent
    refine List.mem_flatMap.mpr ⟨n, hn, mem_requestsAt.mpr ⟨hnshown, .inl ⟨j, hslot, ?_⟩⟩⟩
    rw [hmissing, eq_comm, Option.map_eq_none_iff] at hbitmap
    exact ⟨hurl ▸ hfetched, hbitmap, by rw [hshows.id_eq, hurl]⟩
  | @page _ inner t spacing scroll offset pages page route _ ht hshown hcontent hpage hinner =>
    obtain ⟨n, hn, hshows⟩ := hnodes t ht
    have hnshown : n.hidden = false := hshows.hidden_eq.symm.trans hshown
    obtain ⟨extent, hslot, htrees⟩ := hshows.exists_carousel hnshown hcontent
    have htree : (pages.map (·.tree))[page]? = some (some inner) := by
      rw [List.getElem?_map, hpage, Option.map_some]
    cases hstate : c.carousel? n.path with
    | none => simp [htrees, hstate] at htree
    | some state =>
      rw [htrees, hstate, Option.elim_some, List.getElem?_map, Option.map_eq_some_iff] at htree
      obtain ⟨p, hp, hptree⟩ := htree
      have hq := (hpages hstate hp ⟨p.identity, route, url⟩).mpr ⟨rfl, inner, hptree, hinner⟩
      refine List.mem_flatMap.mpr ⟨n, hn, mem_requestsAt.mpr ⟨hnshown, .inr ?_⟩⟩
      refine ⟨spacing, extent, state, page, p, _, hslot, hstate, hp, hq, ?_⟩
      rw [hshows.id_eq]
      rfl

end OneLevel

/-- All cards in order request what their layouts lack. -/
theorem requestsItsLacks {c : Card σ} (hc : c.IsKept) : c.RequestsItsLacks := by
  induction hc with
  | @intro c _ _ live _ ih =>
    intro r
    cases hl : c.live with
    | none => simp [requests, tree?, hl]
    | some l =>
      have htree : c.tree? = some l.tree := by rw [tree?, hl]; rfl
      have hpages : ∀ {path : String} {state : CarouselState (Card σ)} {page : Nat} {p : Card σ},
          c.carousel? path = some state → state.pages[page]? = some p → p.RequestsItsLacks :=
        fun hstate hp => ih _ _ hstate _ _ hp
      constructor
      · intro hr
        exact ⟨identity_of_mem_requests hr, l.tree, htree,
          lacks_of_mem_requests hl (live l hl) hpages hr⟩
      · rintro ⟨hidentity, t, ht, hlacks⟩
        cases htree.symm.trans ht
        obtain ⟨identity, route, url⟩ := r
        cases hidentity
        exact mem_requests_of_lacks hl (live l hl) hpages hlacks

/-- No two requests of a card go the same way. -/
theorem nodup_routes {c : Card σ} (hc : c.IsKept) : (c.requests.map (·.route)).Nodup := by
  induction hc with
  | @intro c _ _ live _ ih =>
    cases hl : c.live with
    | none => simp [requests, hl]
    | some l =>
      rw [requests_of_live hl, List.map_flatMap]
      refine nodup_flatMap_of_keys (·.id) ImageRoute.firstNode (live l hl).ids fun n _ =>
        ⟨?_, fun route hroute => ?_⟩
      · unfold requestsAt
        split
        · exact List.nodup_nil
        · cases hslot : n.slot with
          | image i =>
            dsimp only
            split
            · exact List.nodup_singleton _
            · exact List.nodup_nil
          | carousel spacing extent =>
            dsimp only
            cases hstate : c.carousel? n.path with
            | none => exact List.nodup_nil
            | some state =>
              refine nodup_pageRequests fun p hp => ?_
              obtain ⟨index, hindex⟩ := List.getElem?_of_mem hp
              exact ih _ _ hstate _ _ hindex
          | _ => exact List.nodup_nil
      · obtain ⟨r, hr, rfl⟩ := List.mem_map.mp hroute
        exact firstNode_of_mem hr

/-! ## Answers -/

/-- The request that a node makes under a number and a URL. -/
theorem mem_requestsAt_of_route {c : Card σ} {l : LiveLayout σ} {n : OutlineNode}
    {r : ImageRequest} (hlaid : c.IsLaidOut l) (hl : c.live = some l) (hn : n ∈ l.root.nodes)
    (hr : r ∈ c.requests) (hfirst : r.route.firstNode = n.id) :
    r ∈ c.requestsAt l.images n := by
  rw [requests_of_live hl] at hr
  obtain ⟨k, hk, hr⟩ := List.mem_flatMap.mp hr
  have hid : k.id = n.id := (firstNode_of_mem hr).symm.trans hfirst
  rwa [← hlaid.eq_of_id hk hn hid]

/-- Where one node loses a request and all others make theirs as before, the card loses it. -/
theorem requests_erase {c c' : Card σ} {l l' : LiveLayout σ} {n : OutlineNode} {r : ImageRequest}
    (hc : c.IsKept) (hl : c.live = some l) (hl' : c'.live = some l') (hroot : l'.root = l.root)
    (hn : n ∈ l.root.nodes) (hr : r ∈ c.requestsAt l.images n)
    (hothers : ∀ k ∈ l.root.nodes, k.id ≠ n.id →
      c'.requestsAt l'.images k = c.requestsAt l.images k)
    (hnode : c'.requestsAt l'.images n = (c.requestsAt l.images n).erase r) :
    c'.requests = c.requests.erase r := by
  have hnodup := (nodup_routes hc).of_map
  obtain ⟨before, after, hnodes, hbefore, hafter⟩ :=
    OutlineNode.exists_split (hc.isLaidOut hl).ids hn
  rw [requests_of_live hl] at hnodup ⊢
  rw [requests_of_live hl', hroot]
  rw [hnodes] at hnodup hothers ⊢
  refine flatMap_erase hnodup hr (fun k hk => ?_) (fun k hk => ?_) hnode
  · exact hothers k (List.mem_append_left _ hk) (hbefore k hk)
  · exact hothers k (List.mem_append_right _ (List.mem_cons_of_mem _ hk)) (hafter k hk)

/-- A card that takes a bitmap no longer requests it, and all else it requests as before. -/
theorem Takes.requests_eq {sizes : ImageSizes} {node : Nat} {url : String} {bitmap : Bitmap}
    {hops : List (Nat × Nat)} {c : Card σ} {a : Accepted σ}
    (h : Takes sizes node url bitmap hops c a) (hc : c.IsKept)
    (hr : ⟨c.identity, ⟨hops, node⟩, url⟩ ∈ c.requests) :
    a.card.requests = c.requests.erase ⟨c.identity, ⟨hops, node⟩, url⟩ := by
  induction h with
  | @here c l t n i board hl hn hid hshown hslot hurl hboard ht =>
    subst hid
    have hat := mem_requestsAt_of_route (hc.isLaidOut hl) hl hn hr rfl
    refine requests_erase hc hl rfl ht.root_eq hn hat (fun k hk hid => ?_) ?_
    · refine requestsAt_congr rfl ?_ rfl
      rw [ht.images_eq, Table.find?_insert, if_neg hid.symm]
    · have hbefore : c.requestsAt l.images n = [⟨c.identity, .here n.id, i.url⟩] := by
        obtain ⟨-, ⟨j, hj, hfetched, hmissing, -⟩ | ⟨_, _, _, _, _, _, hj, -⟩⟩ :=
          mem_requestsAt.mp hat
        · cases hslot.symm.trans hj
          simp [requestsAt, hshown, hslot, hfetched, Table.contains, hmissing]
        · cases hslot.symm.trans hj
      have hafter : requestsAt ({ c with live := some t } : Card σ) t.images n = [] := by
        simp [requestsAt, hshown, hslot, ht.images_eq, Table.contains]
      rw [hbefore, ← hurl]
      simpa [ImageRoute.here] using hafter
  | @page c inner l t n spacing extent state carousel page hops a board hl hn hid hshown hslot
      hstate hinner ha hboard ht ih =>
    subst hid
    have hlaid := hc.isLaidOut hl
    have hat := mem_requestsAt_of_route hlaid hl hn hr rfl
    have hinnerKept := hc.page hstate (List.mem_of_getElem? hinner)
    have hq := mem_requests_of_page hslot hstate hinner hat
    refine requests_erase hc hl rfl ht.root_eq hn hat (fun k hk hid => ?_) ?_
    · refine requestsAt_congr rfl (by rw [ht.images_eq]) ?_
      have hpath := hlaid.path_ne hk hn hid
      exact carousel?_withPage.trans (if_neg hpath)
    · have hnodup : (pageRequests c.identity n.id state.pages).Nodup :=
        (nodup_pageRequests fun p hp => nodup_routes (hc.page hstate hp)).of_map
      have hcarousel : ({ c.withPage n.path state page a.card with live := some t } :
          Card σ).carousel? n.path = some { state with pages := state.pages.set page a.card } :=
        carousel?_withPage.trans (if_pos rfl)
      rw [requestsAt_carousel hshown hslot hstate]
      exact (requestsAt_carousel hshown hslot hcarousel).trans
        (pageRequests_set hinner hq (ih hinnerKept hq) hnodup)

/-- What a card requests it accepts. -/
theorem exists_acceptAt {c : Card σ} (hc : c.IsKept) {hops : List (Nat × Nat)} {node : Nat}
    {url : String} (hr : ⟨c.identity, ⟨hops, node⟩, url⟩ ∈ c.requests) (sizes : ImageSizes)
    (bitmap : Bitmap) : ∃ a, acceptAt sizes node url bitmap hops c = some a := by
  induction hops generalizing c with
  | nil =>
    obtain ⟨l, hl⟩ := exists_live_of_mem hr
    rw [requests_of_live hl] at hr
    obtain ⟨n, hn, hr⟩ := List.mem_flatMap.mp hr
    obtain ⟨hshown, ⟨i, hslot, -, -, hi⟩ | ⟨_, _, _, _, _, _, -, -, -, -, hrelay⟩⟩ :=
      mem_requestsAt.mp hr
    · cases hi
      exact exists_acceptHere hc hl hn hshown hslot sizes bitmap
    · cases hrelay
  | cons hop hops ih =>
    obtain ⟨l, hl⟩ := exists_live_of_mem hr
    have hlaid := hc.isLaidOut hl
    rw [requests_of_live hl] at hr
    obtain ⟨n, hn, hr⟩ := List.mem_flatMap.mp hr
    obtain ⟨hshown, ⟨i, -, -, -, hi⟩ |
      ⟨spacing, extent, state, page, p, q, hslot, hstate, hp, hq, hrelay⟩⟩ := mem_requestsAt.mp hr
    · cases hi
    · obtain ⟨_, ⟨hops', node'⟩, url'⟩ := q
      cases hrelay
      cases identity_of_mem_requests hq
      obtain ⟨a, ha⟩ := ih (hc.page hstate (List.mem_of_getElem? hp)) hq
      obtain ⟨b, hb⟩ := exists_acceptPage hc hl hn hshown hslot page state a
      refine ⟨b, ?_⟩
      rw [acceptAt, shownCarousel?_eq hlaid hl hn hshown hslot hstate]
      simp only [Option.bind_eq_bind, Option.bind_some, hp, ha]
      exact hb

/-- A request can be answered with any bitmap, which takes away this request alone. -/
theorem exists_accept {c : Card σ} (hc : c.IsKept) {r : ImageRequest} (hr : r ∈ c.requests)
    (sizes : ImageSizes) (bitmap : Bitmap) :
    ∃ a, c.accept sizes r.identity r.route r.url bitmap = some a ∧ a.card.IsKept ∧
      a.card.requests = c.requests.erase r := by
  obtain ⟨_, ⟨hops, node⟩, url⟩ := r
  cases identity_of_mem_requests hr
  obtain ⟨a, ha⟩ := exists_acceptAt hc hr sizes bitmap
  have htakes := takes_of_acceptAt hc ha
  exact ⟨a, (if_pos rfl).trans ha, htakes.isKept hc, htakes.requests_eq hc hr⟩

/-- The card after requests were answered one after another, if it accepted all answers. -/
def answerAll (sizes : ImageSizes) : List (ImageRequest × Bitmap) → Card σ → Option (Card σ)
  | [], c => some c
  | (r, bitmap) :: rest, c => do
    let a ← c.accept sizes r.identity r.route r.url bitmap
    answerAll a.sizes rest a.card

/-- Requests can be answered in any order, and only those that were not answered remain. -/
theorem exists_answerAll {c : Card σ} (hc : c.IsKept) (sizes : ImageSizes)
    (answers : List (ImageRequest × Bitmap)) (hnodup : (answers.map (·.1)).Nodup)
    (hrequested : ∀ p ∈ answers, p.1 ∈ c.requests) :
    ∃ t, answerAll sizes answers c = some t ∧
      t.requests = c.requests.filter (· ∉ answers.map (·.1)) := by
  induction answers generalizing c sizes with
  | nil => exact ⟨c, rfl, by simp⟩
  | cons p rest ih =>
    obtain ⟨r, bitmap⟩ := p
    obtain ⟨hfresh, hnodup⟩ := List.nodup_cons.mp hnodup
    have hr : r ∈ c.requests := hrequested _ List.mem_cons_self
    obtain ⟨a, ha, hkept, hrequests⟩ := exists_accept hc hr sizes bitmap
    have hfilter := (nodup_routes hc).of_map.erase_eq_filter r
    obtain ⟨t, ht, hremain⟩ := ih hkept a.sizes hnodup fun q hq => by
      have hmem : q.1 ∈ rest.map (·.1) := List.mem_map_of_mem hq
      have hne : q.1 ≠ r := fun he => hfresh (he ▸ hmem)
      rw [hrequests]
      exact (List.mem_erase_of_ne hne).mpr (hrequested q (List.mem_cons_of_mem _ hq))
    refine ⟨t, ?_, ?_⟩
    · rw [answerAll, ha]
      exact ht
    · rw [hremain, hrequests, hfilter, List.filter_filter]
      refine List.filter_congr fun q _ => ?_
      rw [List.map_cons]
      by_cases hqr : q = r
      · simp [hqr]
      · have hne : (q != r) = true := by simpa using hqr
        simp [hqr, hne]

/-- Of every card that comes about: no two of its requests go the same way; they are for what its
layout lacks, on the card itself and on the pages of its carousels; each can be answered with any
bitmap, which takes away this request and leaves all others; and so they can be answered in any
order, until none is left. -/
theorem requests_match_routes {c : Card σ} (hc : c.Reachable) :
    (c.requests.map (·.route)).Nodup ∧
    (∀ r, r ∈ c.requests ↔
      r.identity = c.identity ∧ ∃ t, c.tree? = some t ∧ t.Lacks r.route r.url) ∧
    (∀ r ∈ c.requests, ∀ sizes bitmap, ∃ a,
      c.accept sizes r.identity r.route r.url bitmap = some a ∧
      a.card.requests = c.requests.erase r) ∧
    ∀ sizes (answers : List (ImageRequest × Bitmap)), (answers.map (·.1)).Perm c.requests →
      ∃ t, answerAll sizes answers c = some t ∧ t.requests = [] := by
  have hkept := hc.isKept
  refine ⟨nodup_routes hkept, requestsItsLacks hkept, fun r hr sizes bitmap => ?_,
    fun sizes answers hperm => ?_⟩
  · obtain ⟨a, ha, -, hrequests⟩ := exists_accept hkept hr sizes bitmap
    exact ⟨a, ha, hrequests⟩
  · have hnodup := hperm.nodup_iff.mpr (nodup_routes hkept).of_map
    obtain ⟨t, ht, hremain⟩ := exists_answerAll hkept sizes answers hnodup fun p hp =>
      hperm.mem_iff.mp (List.mem_map_of_mem hp)
    refine ⟨t, ht, ?_⟩
    rw [hremain, List.filter_eq_nil_iff]
    intro r hr
    simpa using List.mem_map.mp (hperm.mem_iff.mpr hr)

/-! ## A message that is one image -/

/-- A card that shows one image has it below its root. -/
theorem shownNode?_render_image (s : LayoutSettings) (sizes : ImageSizes) (identity : CardIdentity)
    (i : ImageItem) :
    ((new s : Card σ).render sizes identity ⟨1, some [.image false i]⟩).1.shownNode? 1 =
      some ⟨1, itemPath "body" 0, i.view, false, false, .image (i.slot false), []⟩ := by
  obtain ⟨l, board, hrendered, -, -, hroot, -⟩ :=
    (new s : Card σ).exists_renderPage identity sizes 1 [.image false i] rfl
  rw [bodyOutline_image] at hroot
  rw [render, hrendered, shownNode?, node?, Option.bind_some, hroot]
  rfl

/-- A card that shows one image asks for its bitmap. -/
theorem requests_render_image (s : LayoutSettings) (sizes : ImageSizes) (identity : CardIdentity)
    (i : ImageItem) (hurl : isFetched i.url = true) :
    ((new s : Card σ).render sizes identity ⟨1, some [.image false i]⟩).1.requests =
      [⟨identity, .here 1, i.url⟩] := by
  obtain ⟨l, board, hrendered, -, -, hroot, himages⟩ :=
    (new s : Card σ).exists_renderPage identity sizes 1 [.image false i] rfl
  rw [bodyOutline_image] at hroot
  have hempty : l.images = .empty := himages
  rw [render, hrendered, requests_of_live rfl, hroot, hempty]
  simp [rootNode, OutlineNode.nodes, outlineNodes, requestsAt, ImageItem.slot, hurl, Table.contains]

/-! ## A message with images on pages -/

/-- An image whose size is left to its bitmap. -/
def plainImage (url : String) : ImageItem := ⟨View.plain, url, .aspectFit, none, none⟩

/-- A message with an image above a carousel of two pages, each with an image. -/
def albumOf (i j k : ImageItem) : Template :=
  ⟨1, some [.image false i, .carousel View.plain
    [⟨1, some [.image false j]⟩, ⟨1, some [.image false k]⟩] 8]⟩

section Album

variable (s : LayoutSettings) (sizes : ImageSizes) (identity : CardIdentity) (i j k : ImageItem)

/-- A card that shows an album has the image and the carousel below its root, and keeps a card for
each page. -/
theorem exists_render_album :
    ∃ (l : LiveLayout σ) (extent : Extent) (width : Binary64),
      let c := ((new s : Card σ).render sizes identity (albumOf i j k)).1
      let key : CarouselKey := ⟨identity, itemPath "body" 1⟩
      let page (index : Nat) (x : ImageItem) : Card σ := ((new { s with maxWidth := width }).render
        sizes (key.page index) ⟨1, some [.image false x]⟩).1
      c.live = some l ∧ c.identity = identity ∧ l.images = .empty ∧
      l.root = rootNode s
        [⟨1, itemPath "body" 0, i.view, false, false, .image (i.slot false), []⟩,
          ⟨2, key.path, View.plain, false, false, .carousel 8 extent, []⟩] ∧
      c.carousel? key.path = some ⟨[page 0 j, page 1 k], 0⟩ := by
  let key : CarouselKey := ⟨identity, itemPath "body" 1⟩
  let pages : List (TemplateOf Item) := [⟨1, some [.image false j]⟩, ⟨1, some [.image false k]⟩]
  let items : List Item := [.image false i, .carousel View.plain pages 8]
  let place : Place := (bodySiblings s sizes items).place 2 1 (.carousel View.plain pages 8)
  let width := pageWidth s (View.plain.innerWidth place.available)
  let card : Card σ := new { s with maxWidth := width }
  obtain ⟨l, board, hrendered, -, -, hroot, himages⟩ :=
    (new s : Card σ).exists_renderPage identity sizes 1 items rfl
  have harranged : arrangeAll s sizes identity (bodySiblings s sizes items) items 0 1
      (new s : Card σ).carousels.beginPass =
        let carousel := arrange s sizes identity (.carousel View.plain pages 8) place
          (new s : Card σ).carousels.beginPass
        ([⟨1, itemPath "body" 0, i.view, false, false, .image (i.slot false), []⟩, carousel.1],
          carousel.2) := by
    simp only [items, arrangeAll_cons, arrange_image, arrangeAll_nil]
    rfl
  rw [arrange_carousel_of_shown _ rfl] at harranged
  rw [show (new s : Card σ).settings = s from rfl, harranged] at hrendered
  rw [bodyOutline, show (new s : Card σ).settings = s from rfl, harranged] at hroot
  have hpages : renderPages sizes key width pages 0 [card, card] =
      [(card.render sizes (key.page 0) ⟨1, some [.image false j]⟩).1,
        (card.render sizes (key.page 1) ⟨1, some [.image false k]⟩).1] := by
    simp only [pages, renderPages]
    rfl
  refine ⟨l, _, width, congrArg Card.live hrendered, congrArg Card.identity hrendered, himages,
    hroot, ?_⟩
  rw [render, albumOf, hrendered, ← hpages]
  exact (CarouselCache.get?_put ..).trans (if_pos rfl)

/-- The pages of an album are cards of their own, each with its image. -/
theorem exists_shownCarousel?_render_album :
    ∃ (state : CarouselState (Card σ)) (width : Binary64),
      let key : CarouselKey := ⟨identity, itemPath "body" 1⟩
      let page (index : Nat) (x : ImageItem) : Card σ := ((new { s with maxWidth := width }).render
        sizes (key.page index) ⟨1, some [.image false x]⟩).1
      ((new s : Card σ).render sizes identity (albumOf i j k)).1.shownCarousel? 2 = some state ∧
        state.pages = [page 0 j, page 1 k] := by
  obtain ⟨l, extent, width, hl, -, -, hroot, hcarousel⟩ :=
    exists_render_album (σ := σ) s sizes identity i j k
  have hkept := (Reachable.render (.new (σ := σ) s) sizes identity (albumOf i j k)).isKept
  let n : OutlineNode :=
    ⟨2, itemPath "body" 1, View.plain, false, false, .carousel 8 extent, []⟩
  have hn : n ∈ l.root.nodes := by
    simp [hroot, rootNode, OutlineNode.nodes, outlineNodes, n]
  have hstate := shownCarousel?_eq (hkept.isLaidOut hl) hl hn rfl rfl hcarousel
  exact ⟨_, width, hstate, rfl⟩

variable {i j k}

/-- A card that shows an album asks for its bitmaps. -/
theorem requests_render_album (hi : isFetched i.url = true) (hj : isFetched j.url = true)
    (hk : isFetched k.url = true) :
    ((new s : Card σ).render sizes identity (albumOf i j k)).1.requests =
      [⟨identity, .here 1, i.url⟩, ⟨identity, ⟨[(2, 0)], 1⟩, j.url⟩,
        ⟨identity, ⟨[(2, 1)], 1⟩, k.url⟩] := by
  obtain ⟨l, extent, width, hl, hidentity, himages, hroot, hcarousel⟩ :=
    exists_render_album (σ := σ) s sizes identity i j k
  rw [requests_of_live hl, hroot, himages]
  generalize ((new s : Card σ).render sizes identity (albumOf i j k)).1 = c at *
  simp [rootNode, OutlineNode.nodes, outlineNodes, requestsAt, hcarousel, hidentity, pageRequests,
    requests_render_image, hi, hj, hk, relay, ImageItem.slot, Table.contains, ImageRoute.here,
    ImageRoute.through]

end Album

/-- A card with an image of its own and one on each page of a carousel asks for the three. The
answer for a page takes away that request alone, and after answers in another order none is left. -/
theorem requests_match_routes_of_album :
    let c : Card (Linear.Tableau .exact) := ((new {}).render .empty ⟨"m", 1⟩
      (albumOf (plainImage "a") (plainImage "b") (plainImage "c"))).1
    let request (hops : List (Nat × Nat)) (url : String) : ImageRequest :=
      ⟨⟨"m", 1⟩, ⟨hops, 1⟩, url⟩
    c.Reachable ∧ c.requests = [request [] "a", request [(2, 0)] "b", request [(2, 1)] "c"] ∧
      (∀ bitmap, ∃ a, c.accept .empty ⟨"m", 1⟩ ⟨[(2, 0)], 1⟩ "b" bitmap = some a ∧
        a.card.requests = [request [] "a", request [(2, 1)] "c"]) ∧
      ∀ x y z, ∃ t, answerAll .empty
          [(request [(2, 1)] "c", x), (request [] "a", y), (request [(2, 0)] "b", z)] c = some t ∧
        t.requests = [] := by
  intro c request
  have hc : c.Reachable := .render (.new {}) _ _ _
  have hrequests : c.requests = [request [] "a", request [(2, 0)] "b", request [(2, 1)] "c"] :=
    requests_render_album {} .empty ⟨"m", 1⟩ (by decide) (by decide) (by decide)
  obtain ⟨-, -, hanswer, hany⟩ := requests_match_routes hc
  refine ⟨hc, hrequests, fun bitmap => ?_, fun x y z => hany .empty _ ?_⟩
  · obtain ⟨a, ha, hremain⟩ := hanswer (request [(2, 0)] "b") (by simp [hrequests]) .empty bitmap
    refine ⟨a, ha, ?_⟩
    rw [hremain, hrequests]
    rfl
  · rw [hrequests]
    exact (List.Perm.swap ..).trans ((List.Perm.swap ..).cons _)

end Card
end MessageCard
