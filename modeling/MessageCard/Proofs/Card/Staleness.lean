import MessageCard.Card.Delivery
import MessageCard.Proofs.Card.Failures
import MessageCard.Proofs.Template.Reading

/-!
# Bitmaps that come too late

A bitmap is stale when its message is no longer shown, or when the way to its slot has been lost or
leads to another image by now. Delivered in place such a bitmap changes nothing: each check comes
before the first change, on the card and on all pages on the way, and what was taken out to be
worked on is put back as it was. All other bitmaps are taken, as the card accepts them.
-/
namespace MessageCard
namespace Card

variable {σ : Type}

/-- The node at which a way goes on: the carousel that comes next, or the node at its end. -/
def nextNode (node : Nat) : List (Nat × Nat) → Nat
  | [] => node
  | (carousel, _) :: _ => carousel

/-- Whether a way does not lead to a slot with a URL, and how it fails to. -/
inductive Misses (url : String) (node : Nat) : List (Nat × Nat) → Card σ → Prop
  | noLayout {hops : List (Nat × Nat)} {c : Card σ} (h : c.live = none) : Misses url node hops c
  | noNode {hops : List (Nat × Nat)} {c : Card σ} (h : c.node? (nextNode node hops) = none) :
      Misses url node hops c
  | hidden {hops : List (Nat × Nat)} {c : Card σ} {n : OutlineNode}
      (hn : c.node? (nextNode node hops) = some n) (h : n.hidden = true) : Misses url node hops c
  | noImage {c : Card σ} {n : OutlineNode} (hn : c.node? node = some n)
      (h : ∀ i, n.slot ≠ .image i) : Misses url node [] c
  | otherUrl {c : Card σ} {n : OutlineNode} {i : ImageSlot} (hn : c.node? node = some n)
      (hslot : n.slot = .image i) (h : i.url ≠ url) : Misses url node [] c
  | noCarousel {hops : List (Nat × Nat)} {carousel page : Nat} {c : Card σ} {n : OutlineNode}
      (hn : c.node? carousel = some n) (h : ∀ spacing extent, n.slot ≠ .carousel spacing extent) :
      Misses url node ((carousel, page) :: hops) c
  | noPages {hops : List (Nat × Nat)} {carousel page : Nat} {c : Card σ} {n : OutlineNode}
      (hn : c.node? carousel = some n) (h : c.carousel? n.path = none) :
      Misses url node ((carousel, page) :: hops) c
  | noPage {hops : List (Nat × Nat)} {carousel page : Nat} {c : Card σ} {n : OutlineNode}
      {state : CarouselState (Card σ)} (hn : c.node? carousel = some n)
      (hstate : c.carousel? n.path = some state) (h : state.pages.length ≤ page) :
      Misses url node ((carousel, page) :: hops) c
  | onPage {hops : List (Nat × Nat)} {carousel page : Nat} {c inner : Card σ} {n : OutlineNode}
      {state : CarouselState (Card σ)} (hn : c.node? carousel = some n)
      (hstate : c.carousel? n.path = some state) (hinner : state.pages[page]? = some inner)
      (h : Misses url node hops inner) : Misses url node ((carousel, page) :: hops) c

/-- Whether a bitmap that was requested for a message is stale. -/
def IsStale (c : Card σ) (identity : CardIdentity) (route : ImageRoute) (url : String) : Prop :=
  identity ≠ c.identity ∨ Misses url route.node route.hops c

/-! ## Ways that miss -/

theorem shownNode?_eq_some_iff {c : Card σ} {id : Nat} {n : OutlineNode} :
    c.shownNode? id = some n ↔ c.node? id = some n ∧ n.hidden = false := by
  rw [shownNode?, Option.filter_eq_some_iff]
  simp

theorem shownCarousel?_eq_some {c : Card σ} {carousel : Nat} {n : OutlineNode} {spacing : Binary64}
    {extent : Extent} {state : CarouselState (Card σ)} (hn : c.shownNode? carousel = some n)
    (hslot : n.slot = .carousel spacing extent) (hstate : c.carousel? n.path = some state) :
    c.shownCarousel? carousel = some state := by
  simp [shownCarousel?, hn, hslot, hstate]

/-- A way that leads through a carousel to a slot goes on from the page to that slot. -/
theorem exists_of_urlAt?_cons {c : Card σ} {carousel page node : Nat} {hops : List (Nat × Nat)}
    {url : String} (h : c.urlAt? ⟨(carousel, page) :: hops, node⟩ = some url) :
    ∃ n spacing extent state inner, c.shownNode? carousel = some n ∧
      n.slot = .carousel spacing extent ∧ c.carousel? n.path = some state ∧
      state.pages[page]? = some inner ∧ inner.urlAt? ⟨hops, node⟩ = some url := by
  obtain ⟨holder, m, i, hholder, hm, hm', rfl⟩ := exists_of_urlAt? h
  obtain ⟨state, inner, hstate, hinner, hrest⟩ := exists_of_cardAt?_cons hholder
  obtain ⟨n, spacing, extent, hn, hslot, hkept⟩ := exists_of_shownCarousel? hstate
  exact ⟨n, spacing, extent, state, inner, hn, hslot, hkept, hinner, urlAt?_eq_some hrest hm hm'⟩

theorem exists_shownNode?_of_urlAt? {c : Card σ} {node : Nat} {hops : List (Nat × Nat)}
    {url : String} (h : c.urlAt? ⟨hops, node⟩ = some url) :
    ∃ n, c.shownNode? (nextNode node hops) = some n := by
  cases hops with
  | nil =>
    obtain ⟨holder, n, i, hholder, hn, -⟩ := exists_of_urlAt? h
    cases hholder
    exact ⟨n, hn⟩
  | cons hop hops =>
    obtain ⟨n, -, -, -, -, hn, -⟩ := exists_of_urlAt?_cons h
    exact ⟨n, hn⟩

/-- A way that misses leads to no slot with the URL. -/
theorem Misses.urlAt?_ne {c : Card σ} {url : String} {node : Nat} {hops : List (Nat × Nat)}
    (h : Misses url node hops c) : c.urlAt? ⟨hops, node⟩ ≠ some url := by
  induction h with
  | noLayout h =>
    intro hurl
    obtain ⟨n, hn⟩ := exists_shownNode?_of_urlAt? hurl
    obtain ⟨l, hl, -⟩ := exists_of_shownNode? hn
    cases h.symm.trans hl
  | noNode h =>
    intro hurl
    obtain ⟨n, hn⟩ := exists_shownNode?_of_urlAt? hurl
    cases h.symm.trans (shownNode?_eq_some_iff.mp hn).1
  | hidden hn h =>
    intro hurl
    obtain ⟨k, hk⟩ := exists_shownNode?_of_urlAt? hurl
    obtain ⟨hk, hshown⟩ := shownNode?_eq_some_iff.mp hk
    cases hn.symm.trans hk
    cases h.symm.trans hshown
  | noImage hn h =>
    intro hurl
    obtain ⟨holder, k, i, hholder, hk, hslot, -⟩ := exists_of_urlAt? hurl
    cases hholder
    cases hn.symm.trans (shownNode?_eq_some_iff.mp hk).1
    exact h i hslot
  | otherUrl hn hslot h =>
    intro hurl
    obtain ⟨holder, k, i, hholder, hk, hslot', hurl⟩ := exists_of_urlAt? hurl
    cases hholder
    cases hn.symm.trans (shownNode?_eq_some_iff.mp hk).1
    cases hslot.symm.trans hslot'
    exact h hurl
  | noCarousel hn h =>
    intro hurl
    obtain ⟨k, spacing, extent, -, -, hk, hslot, -⟩ := exists_of_urlAt?_cons hurl
    cases hn.symm.trans (shownNode?_eq_some_iff.mp hk).1
    exact h spacing extent hslot
  | noPages hn h =>
    intro hurl
    obtain ⟨k, -, -, state, -, hk, -, hstate, -⟩ := exists_of_urlAt?_cons hurl
    cases hn.symm.trans (shownNode?_eq_some_iff.mp hk).1
    cases h.symm.trans hstate
  | noPage hn hstate h =>
    intro hurl
    obtain ⟨k, -, -, state, inner, hk, -, hstate', hinner, -⟩ := exists_of_urlAt?_cons hurl
    cases hn.symm.trans (shownNode?_eq_some_iff.mp hk).1
    cases hstate.symm.trans hstate'
    cases hinner.symm.trans (List.getElem?_eq_none h)
  | onPage hn hstate hinner _ ih =>
    intro hurl
    obtain ⟨k, -, -, state, inner, hk, -, hstate', hinner', hrest⟩ := exists_of_urlAt?_cons hurl
    cases hn.symm.trans (shownNode?_eq_some_iff.mp hk).1
    cases hstate.symm.trans hstate'
    cases hinner.symm.trans hinner'
    exact ih hrest

theorem exists_node?_of_not_misses {c : Card σ} {url : String} {node : Nat}
    {hops : List (Nat × Nat)} (h : ¬Misses url node hops c) :
    ∃ n, c.node? (nextNode node hops) = some n ∧ c.shownNode? (nextNode node hops) = some n := by
  obtain ⟨n, hn⟩ := Option.ne_none_iff_exists'.mp fun hnone => h (.noNode hnone)
  refine ⟨n, hn, shownNode?_eq_some_iff.mpr ⟨hn, ?_⟩⟩
  by_contra hhidden
  exact h (.hidden hn (by simpa using hhidden))

/-- A way that does not miss leads to the slot. -/
theorem urlAt?_of_not_misses {c : Card σ} {url : String} {node : Nat} {hops : List (Nat × Nat)}
    (h : ¬Misses url node hops c) : c.urlAt? ⟨hops, node⟩ = some url := by
  induction hops generalizing c with
  | nil =>
    obtain ⟨n, hn, hshown⟩ := exists_node?_of_not_misses h
    by_cases himage : ∃ i, n.slot = .image i
    · obtain ⟨i, hslot⟩ := himage
      obtain rfl : i.url = url := by
        by_contra hne
        exact h (.otherUrl hn hslot hne)
      exact urlAt?_eq_some rfl hshown hslot
    · exact absurd (.noImage hn (not_exists.mp himage)) h
  | cons hop hops ih =>
    obtain ⟨carousel, page⟩ := hop
    obtain ⟨n, hn, hshown⟩ := exists_node?_of_not_misses h
    simp only [nextNode] at hn hshown
    by_cases hcarousel : ∃ spacing extent, n.slot = .carousel spacing extent
    · obtain ⟨spacing, extent, hslot⟩ := hcarousel
      obtain ⟨state, hstate⟩ := Option.ne_none_iff_exists'.mp fun hnone => h (.noPages hn hnone)
      have hpage : page < state.pages.length :=
        Nat.lt_of_not_le fun hle => h (.noPage hn hstate hle)
      have hinner := List.getElem?_eq_getElem hpage
      rw [urlAt?_cons (shownCarousel?_eq_some hshown hslot hstate) hinner]
      exact ih fun hmisses => h (.onPage hn hstate hinner hmisses)
    · simp only [not_exists] at hcarousel
      exact absurd (.noCarousel hn hcarousel) h

/-- A page put back as it was leaves the card as it was. -/
theorem withPage_eq_self {c inner : Card σ} {path : String} {state : CarouselState (Card σ)}
    {page : Nat} (hstate : c.carousel? path = some state)
    (hinner : state.pages[page]? = some inner) : c.withPage path state page inner = c := by
  obtain ⟨hpage, rfl⟩ := List.getElem?_eq_some_iff.mp hinner
  -- Cards hold cards, so a card is not by definition the record of its fields.
  obtain ⟨settings, identity, carousels, live⟩ := c
  have hput : carousels.put ⟨identity, path⟩ state = carousels := CarouselCache.put_of_get? hstate
  rw [withPage, List.set_getElem_self, hput]

variable [RelationSolver σ]

/-! ## What is refused -/

/-- What a card accepts has its slot there. -/
theorem urlAt?_of_acceptAt {c : Card σ} {sizes : ImageSizes} {node : Nat} {url : String}
    {bitmap : Bitmap} {hops : List (Nat × Nat)} {a : Accepted σ}
    (h : acceptAt sizes node url bitmap hops c = some a) : c.urlAt? ⟨hops, node⟩ = some url := by
  induction hops generalizing c a with
  | nil =>
    obtain ⟨l, hl, h⟩ := Option.bind_eq_some_iff.mp h
    obtain ⟨n, hn, h⟩ := Option.bind_eq_some_iff.mp h
    cases hslot : n.slot with
    | image i =>
      by_cases hurl : i.url = url
      · exact hurl ▸ urlAt?_eq_some rfl hn hslot
      · simp [hslot, hurl] at h
    | _ => simp [hslot] at h
  | cons hop hops ih =>
    obtain ⟨carousel, page⟩ := hop
    obtain ⟨state, hstate, h⟩ := Option.bind_eq_some_iff.mp h
    obtain ⟨inner, hinner, h⟩ := Option.bind_eq_some_iff.mp h
    obtain ⟨b, hb, -⟩ := Option.bind_eq_some_iff.mp h
    rw [urlAt?_cons hstate hinner]
    exact ih hb

end Card

/-! ## Work on a card -/

namespace Workbench
open Card

variable {σ : Type} [RelationSolver σ] {w : Workbench σ} {url : String} {bitmap : Bitmap}

theorem putHere_eq_self {node : Nat}
    (h : ∀ n i, w.shownNode? node = some n → n.slot = .image i → i.url ≠ url) :
    w.putHere node url bitmap = .ok (w, none) := by
  unfold putHere
  cases hn : w.shownNode? node with
  | none => rfl
  | some n =>
    cases hslot : n.slot with
    | image i =>
      simp only [hslot, if_pos (h n i hn hslot)]
      rfl
    | _ => simp only [hslot]; rfl

/-- A page that stays as it is, is put back as it was. -/
theorem putOnPage_eq_self {carousel page : Nat}
    {deliver : Card σ → ImageSizes → Except SystemError (ImageOutcome σ)}
    (h : ∀ n spacing extent state inner, w.shownNode? carousel = some n →
      n.slot = .carousel spacing extent → w.card.carousel? n.path = some state →
      state.pages[page]? = some inner → deliver inner w.sizes = .ok ⟨inner, w.sizes, none⟩) :
    w.putOnPage carousel page deliver = .ok (w, none) := by
  unfold putOnPage
  cases hn : w.shownNode? carousel with
  | none => rfl
  | some n =>
    cases hslot : n.slot with
    | carousel spacing extent =>
      cases hstate : w.card.carousel? n.path with
      | none => simp only [hslot, hstate]; rfl
      | some state =>
        cases hinner : state.pages[page]? with
        | none => simp only [hslot, hstate, hinner]; rfl
        | some inner =>
          have hcard : w.card.withPage n.path state page inner = w.card :=
            withPage_eq_self hstate hinner
          simp only [hslot, hstate, hinner, h n spacing extent state inner hn hslot hstate hinner]
          show Except.ok
            (({ w with card := w.card.withPage n.path state page inner } : Workbench σ), none) = _
          rw [hcard]
    | _ => simp only [hslot]; rfl

/-- An owner whose constraints can be replaced on the board can be disowned there first. -/
theorem exists_disown {o : Owner} {cs : List Constraint} {board : Board σ}
    (h : w.board.follow (.replace o cs) = .ok board) :
    ∃ bare, w.disown o = .ok (w.withBoard bare) ∧
      (w.withBoard bare).own o cs = w.withBoard board := by
  obtain ⟨bare, hbare, h⟩ := bind_eq_ok_iff.mp h
  cases h
  exact ⟨bare, bind_eq_ok_iff.mpr ⟨bare, hbare, rfl⟩, rfl⟩

theorem resizeCarousel_eq {n : OutlineNode} {height : Binary64} {board : Board σ}
    (h : pageBoard w.live n height = .ok board) :
    w.resizeCarousel n height = .ok (w.withBoard board) := by
  unfold pageBoard at h
  unfold resizeCarousel
  split at h
  case isTrue hfixed =>
    cases h
    rw [if_pos hfixed]
    rfl
  case isFalse hflexible =>
    obtain ⟨bare, hbare, hown⟩ := exists_disown h
    rw [if_neg hflexible, Workbench.replace, hbare, ← hown]
    rfl

theorem settle_eq {t : LiveLayout σ}
    (h : MessageCard.settle w.card.settings w.card.strip? w.live.root w.live.images
      w.live.measured = .ok t) : w.settle = .ok { w with live := t } := by
  rw [Workbench.settle, h]
  rfl

/-- A bitmap for a slot that is shown under its URL is put there. -/
theorem putHere_eq {node : Nat} {n : OutlineNode} {i : ImageSlot} {board : Board σ}
    {t : LiveLayout σ} (hn : w.shownNode? node = some n) (hslot : n.slot = .image i)
    (hurl : i.url = url)
    (hboard : w.board.follow (.replace (.image node) (Rules.image node n.view i
      (w.sizes.insert url bitmap.size) w.card.settings.displayScale)) = .ok board)
    (ht : MessageCard.settle w.card.settings w.card.strip? w.live.root (w.live.images.insert node
      ⟨n.view.fit w.card.settings.displayScale bitmap, bitmap.size⟩)
      { w.live.measured with board } = .ok t) :
    w.putHere node url bitmap = .ok (⟨w.card, t, w.sizes.insert url bitmap.size⟩,
      some (if isResizedBy n.view i then some node else none)) := by
  obtain ⟨bare, hbare, hown⟩ := exists_disown hboard
  have hsettle : Workbench.settle { w.withBoard board with
      sizes := w.sizes.insert url bitmap.size
      live.images := w.live.images.insert node
        ⟨n.view.fit w.card.settings.displayScale bitmap, bitmap.size⟩ } =
      .ok ⟨w.card, t, w.sizes.insert url bitmap.size⟩ := settle_eq ht
  rw [← hown] at hsettle
  unfold putHere
  simp only [hn, hslot, hurl, ne_eq, not_true_eq_false, if_false]
  exact bind_eq_ok_iff.mpr ⟨_, hbare, bind_eq_ok_iff.mpr ⟨_, hsettle, rfl⟩⟩

/-- A bitmap that a page takes is taken by the card around it. -/
theorem putOnPage_eq {carousel page : Nat}
    {deliver : Card σ → ImageSizes → Except SystemError (ImageOutcome σ)} {n : OutlineNode}
    {spacing : Binary64} {extent : Extent} {state : CarouselState (Card σ)} {inner card : Card σ}
    {sizes : ImageSizes} {resized : Option Nat} {board : Board σ} {t : LiveLayout σ}
    (hn : w.shownNode? carousel = some n)
    (hslot : n.slot = .carousel spacing extent) (hstate : w.card.carousel? n.path = some state)
    (hinner : state.pages[page]? = some inner)
    (hdeliver : deliver inner w.sizes = .ok ⟨card, sizes, some resized⟩)
    (hboard : pageBoard w.live n (pagesExtent spacing (state.pages.set page card)).height =
      .ok board)
    (ht : MessageCard.settle w.card.settings (w.card.withPage n.path state page card).strip?
      w.live.root w.live.images { w.live.measured with board } = .ok t) :
    w.putOnPage carousel page deliver = .ok (⟨w.card.withPage n.path state page card, t, sizes⟩,
      some (resized.map fun _ => carousel)) := by
  have hresize : Workbench.resizeCarousel { w with
      card := w.card.withPage n.path state page card, sizes } n
      (pagesExtent spacing (state.pages.set page card)).height =
      .ok { w.withBoard board with card := w.card.withPage n.path state page card, sizes } :=
    resizeCarousel_eq hboard
  have hsettle : Workbench.settle { w.withBoard board with
      card := w.card.withPage n.path state page card, sizes } =
      .ok ⟨w.card.withPage n.path state page card, t, sizes⟩ := settle_eq ht
  unfold putOnPage
  simp only [hn, hslot, hstate, hinner]
  exact bind_eq_ok_iff.mpr ⟨_, hdeliver, bind_eq_ok_iff.mpr ⟨_, hresize,
    bind_eq_ok_iff.mpr ⟨_, hsettle, rfl⟩⟩⟩

end Workbench

namespace Card

variable {σ : Type} [RelationSolver σ]

/-! ## Whole deliveries -/

section Deliver

variable {c : Card σ} {l : LiveLayout σ} {sizes : ImageSizes} {node : Nat} {url : String}
  {bitmap : Bitmap}

omit [RelationSolver σ] in
theorem shownNode?_ofCard (hl : c.live = some l) (id : Nat) :
    (Workbench.ofCard c l sizes).shownNode? id = c.shownNode? id := by
  rw [shownNode?, node?, hl]
  rfl

omit [RelationSolver σ] in
/-- A layout put back as it was taken out leaves the card as it was. -/
theorem finish_ofCard (hl : c.live = some l) (taken : Option (Option Nat)) :
    (Workbench.ofCard c l sizes).finish taken = ⟨c, sizes, taken⟩ := by
  obtain ⟨settings, identity, carousels, live⟩ := c
  cases hl
  rfl

omit [RelationSolver σ] in
theorem atWorkbench_of_live
    {work : Workbench σ → Except SystemError (Workbench σ × Option (Option Nat))}
    (hl : c.live = some l) : c.atWorkbench sizes work =
      (work (.ofCard c l sizes)).map fun (w, taken) => w.finish taken := by
  simp only [atWorkbench, hl]

omit [RelationSolver σ] in
/-- Where no work was done the card is as it was. -/
theorem atWorkbench_eq_self
    {work : Workbench σ → Except SystemError (Workbench σ × Option (Option Nat))}
    (h : ∀ l, c.live = some l → work (.ofCard c l sizes) = .ok (.ofCard c l sizes, none)) :
    c.atWorkbench sizes work = .ok ⟨c, sizes, none⟩ := by
  cases hl : c.live with
  | none => simp only [atWorkbench, hl]
  | some l =>
    rw [atWorkbench_of_live hl, h l hl]
    exact congrArg Except.ok (finish_ofCard hl none)

/-- A bitmap that has no place on a card leaves it as it is. The induction is on the way: the card
around a page is put back as it was because the page is. -/
theorem deliverAt_eq_self {hops : List (Nat × Nat)} (h : c.urlAt? ⟨hops, node⟩ ≠ some url) :
    deliverAt node url bitmap hops c sizes = .ok ⟨c, sizes, none⟩ := by
  induction hops generalizing c sizes with
  | nil =>
    refine atWorkbench_eq_self fun l hl =>
      Workbench.putHere_eq_self fun n i hn hslot hurl => h ?_
    rw [shownNode?_ofCard hl] at hn
    exact hurl ▸ urlAt?_eq_some rfl hn hslot
  | cons hop hops ih =>
    obtain ⟨carousel, page⟩ := hop
    refine atWorkbench_eq_self fun l hl => Workbench.putOnPage_eq_self
      fun n spacing extent state inner hn hslot hstate hinner => ih fun hurl => h ?_
    rw [shownNode?_ofCard hl] at hn
    rw [urlAt?_cons (shownCarousel?_eq_some hn hslot hstate) hinner, hurl]

/-- What settling a card's layout again comes to. -/
theorem exists_of_resettle {card : Card σ} {board : Board σ} {images : Table Nat LoadedImage}
    (h : c.resettle l board images = .ok card) :
    ∃ t, settle c.settings c.strip? l.root images { l.measured with board } = .ok t ∧
      card = { c with live := some t } := by
  obtain ⟨t, ht, h⟩ := bind_eq_ok_iff.mp h
  cases h
  exact ⟨t, ht, rfl⟩

/-- A bitmap that a card accepts is put in its place. -/
theorem deliverAt_of_acceptAt {hops : List (Nat × Nat)} {a : Accepted σ}
    (h : acceptAt sizes node url bitmap hops c = some a) :
    deliverAt node url bitmap hops c sizes = .ok ⟨a.card, a.sizes, some a.resized⟩ := by
  induction hops generalizing c a with
  | nil =>
    obtain ⟨holder, n, i, hholder, hn, hslot, hurl⟩ := exists_of_urlAt? (urlAt?_of_acceptAt h)
    cases hholder
    obtain ⟨l, hl, -⟩ := exists_of_shownNode? hn
    rw [acceptAt, acceptHere_eq hl hn hslot hurl] at h
    obtain ⟨board, hboard, h⟩ := Option.bind_eq_some_iff.mp h
    obtain ⟨card, hcard, h⟩ := Option.bind_eq_some_iff.mp h
    obtain ⟨t, ht, rfl⟩ := exists_of_resettle (eq_ok_of_toOption hcard)
    cases h
    rw [deliverAt, atWorkbench_of_live hl, Workbench.putHere_eq
      ((shownNode?_ofCard hl _).trans hn) hslot hurl (eq_ok_of_toOption hboard) ht]
    rfl
  | cons hop hops ih =>
    obtain ⟨carousel, page⟩ := hop
    obtain ⟨state, hstate, h⟩ := Option.bind_eq_some_iff.mp h
    obtain ⟨inner, hinner, h⟩ := Option.bind_eq_some_iff.mp h
    obtain ⟨b, hb, h⟩ := Option.bind_eq_some_iff.mp h
    obtain ⟨n, spacing, extent, hn, hslot, hkept⟩ := exists_of_shownCarousel? hstate
    obtain ⟨l, hl, -, hid, -⟩ := exists_of_shownNode? hn
    rw [acceptPage_eq hl hn hid hslot] at h
    obtain ⟨board, hboard, h⟩ := Option.bind_eq_some_iff.mp h
    obtain ⟨card, hcard, h⟩ := Option.bind_eq_some_iff.mp h
    obtain ⟨t, ht, rfl⟩ := exists_of_resettle (eq_ok_of_toOption hcard)
    cases h
    rw [deliverAt, atWorkbench_of_live hl, Workbench.putOnPage_eq
      ((shownNode?_ofCard hl _).trans hn) hslot hkept hinner (ih hb) (eq_ok_of_toOption hboard) ht]
    rfl

end Deliver

/-- A bitmap that is stale changes nothing. Nothing of the card, of its pages or of the sizes that
are known is other than before, the host is told nothing, and the answer is no. On a card that came
about every other bitmap is taken, and the delivery has the outcome with which the card accepts
it. -/
theorem stale_bitmap_changes_nothing (c : Card σ) (sizes : ImageSizes) (identity : CardIdentity)
    (route : ImageRoute) (url : String) (bitmap : Bitmap) :
    (c.IsStale identity route url →
      c.deliver sizes identity route url bitmap =
        .ok { card := c, sizes, told := none, answer := false } ∧
      c.accept sizes identity route url bitmap = none) ∧
    (c.Reachable → ¬c.IsStale identity route url →
      ∃ a, c.accept sizes identity route url bitmap = some a ∧
        c.deliver sizes identity route url bitmap =
          .ok ⟨a.card, a.sizes, a.resized, a.resized.isSome⟩) := by
  constructor
  · rintro (hidentity | hmisses)
    · exact ⟨if_neg hidentity, if_neg hidentity⟩
    · have hne := hmisses.urlAt?_ne
      have haccept : acceptAt sizes route.node url bitmap route.hops c = none :=
        Option.eq_none_iff_forall_ne_some.mpr fun a ha => hne (urlAt?_of_acceptAt ha)
      by_cases hidentity : identity = c.identity
      · rw [deliver, if_pos hidentity, deliverAt_eq_self hne, accept, if_pos hidentity]
        exact ⟨rfl, haccept⟩
      · exact ⟨if_neg hidentity, if_neg hidentity⟩
  · intro hc hfresh
    obtain ⟨hidentity, hway⟩ := not_or.mp hfresh
    have hidentity : identity = c.identity := not_not.mp hidentity
    have hsome := (isSome_accept_iff hc.isKept sizes identity route url bitmap).mpr
      ⟨hidentity, urlAt?_of_not_misses hway⟩
    obtain ⟨a, ha⟩ := Option.isSome_iff_exists.mp hsome
    refine ⟨a, ha, ?_⟩
    rw [accept, if_pos hidentity] at ha
    rw [deliver, if_pos hidentity, deliverAt_of_acceptAt ha]
    rfl

/-- On a card with images on the pages of a carousel, a bitmap for a newer revision of the message,
one for another URL on a page, one for a page that there is not and one for a page of what is no
carousel change nothing; the bitmap that a page asks for is taken. -/
theorem stale_bitmap_changes_nothing_of_album :
    let c : Card (Linear.Tableau .exact) := ((new {}).render .empty ⟨"m", 1⟩
      (albumOf (plainImage "a") (plainImage "b") (plainImage "c"))).1
    ∀ bitmap,
      c.deliver .empty ⟨"m", 2⟩ ⟨[(2, 1)], 1⟩ "c" bitmap = .ok ⟨c, .empty, none, false⟩ ∧
      c.deliver .empty ⟨"m", 1⟩ ⟨[(2, 1)], 1⟩ "b" bitmap = .ok ⟨c, .empty, none, false⟩ ∧
      c.deliver .empty ⟨"m", 1⟩ ⟨[(2, 2)], 1⟩ "c" bitmap = .ok ⟨c, .empty, none, false⟩ ∧
      c.deliver .empty ⟨"m", 1⟩ ⟨[(1, 0)], 1⟩ "a" bitmap = .ok ⟨c, .empty, none, false⟩ ∧
      ∃ a, c.accept .empty ⟨"m", 1⟩ ⟨[(2, 1)], 1⟩ "c" bitmap = some a ∧
        c.deliver .empty ⟨"m", 1⟩ ⟨[(2, 1)], 1⟩ "c" bitmap =
          .ok ⟨a.card, a.sizes, a.resized, a.resized.isSome⟩ := by
  intro c bitmap
  have hc : c.Reachable := .render (.new {}) _ _ _
  have hurl (page : Nat) : c.urlAt? ⟨[(2, page)], 1⟩ = ["b", "c"][page]? :=
    urlAt?_render_album {} .empty ⟨"m", 1⟩ (plainImage "a") (plainImage "b") (plainImage "c") page
  obtain ⟨l, extent, width, hl, hidentity, -, hroot, -⟩ :=
    exists_render_album (σ := Linear.Tableau .exact) {} .empty ⟨"m", 1⟩ (plainImage "a")
      (plainImage "b") (plainImage "c")
  have hidentity : c.identity = ⟨"m", 1⟩ := hidentity
  -- A way that leads to no such URL misses.
  have hmisses (page : Nat) (url : String) (hother : ["b", "c"][page]? ≠ some url) :
      c.IsStale ⟨"m", 1⟩ ⟨[(2, page)], 1⟩ url := by
    by_contra hfresh
    exact hother ((hurl page).symm.trans (urlAt?_of_not_misses (not_or.mp hfresh).2))
  refine ⟨?_, ?_, ?_, ?_, ?_⟩
  · refine ((stale_bitmap_changes_nothing c _ _ _ _ _).1 (.inl ?_)).1
    rw [hidentity]
    decide
  · exact ((stale_bitmap_changes_nothing c _ _ _ _ _).1 (hmisses 1 "b" (by decide))).1
  · exact ((stale_bitmap_changes_nothing c _ _ _ _ _).1 (hmisses 2 "c" (by decide))).1
  · have hn : c.node? 1 = some ⟨1, itemPath "body" 0, View.plain, false, false,
        .image ((plainImage "a").slot false), []⟩ := by
      rw [node?, hl, Option.bind_some, hroot]
      rfl
    have himage : ∀ spacing extent, Slot.image ((plainImage "a").slot false) ≠
        .carousel spacing extent := by
      intro spacing extent h
      cases h
    exact ((stale_bitmap_changes_nothing c _ _ _ _ _).1 (.inr (.noCarousel hn himage))).1
  · refine (stale_bitmap_changes_nothing c _ _ _ _ _).2 hc fun hstale => ?_
    rcases hstale with hother | hway
    · exact hother hidentity.symm
    · exact hway.urlAt?_ne (hurl 1)

end Card
end MessageCard
