import MessageCard.Proofs.Card.Carousels

/-!
# What a rendering claims

A carousel that is shown claims what the rendering before has kept under its path: the number of its
pages and how far it is scrolled, if that number is the same. While the items of a body are arranged
each of its carousels does so once, as no two have one path; so what is kept in the end can be told
from what was there in the beginning, carousel by carousel, and the carousels built anew are those
that found nothing to claim. The carousels on pages belong to the cards there.
-/
namespace MessageCard

/-! ## The carousels of a body -/

/-- Where a carousel stands, and how many pages it has. -/
structure CarouselSpot where
  path : String
  pages : Nat
  deriving DecidableEq

/-- The key of a carousel on a card. -/
def CarouselSpot.on (spot : CarouselSpot) (identity : CardIdentity) : CarouselKey :=
  ⟨identity, spot.path⟩

mutual

/-- The carousels of an item at a path, without those on pages. -/
def Item.carousels (path : String) : Item → List CarouselSpot
  | .box _ _ items _ => carouselsFrom path 0 items
  | .text _ _ => []
  | .image _ _ => []
  | .carousel _ pages _ => [⟨path, pages.length⟩]

/-- The carousels of the items of a box at a path, from the item with a given index on. -/
def carouselsFrom (path : String) : Nat → List Item → List CarouselSpot
  | _, [] => []
  | index, item :: rest =>
    item.carousels (itemPath path index) ++ carouselsFrom path (index + 1) rest

end

mutual

theorem Item.sublist_carousels (path : String) : ∀ item : Item,
    ((item.carousels path).map (·.path)).Sublist (item.ways.map (pathFrom path))
  | .box view direction items align => by
    rw [Item.carousels, Item.ways, List.map_cons]
    exact (sublist_carouselsFrom path 0 items).cons _
  | .text isButton t => List.nil_sublist _
  | .image isButton i => List.nil_sublist _
  | .carousel view pages spacing => List.Sublist.refl _

/-- Carousels have paths along ways to items, in the same order. -/
theorem sublist_carouselsFrom (path : String) : ∀ (index : Nat) (items : List Item),
    ((carouselsFrom path index items).map (·.path)).Sublist
      ((waysFrom index items).map (pathFrom path))
  | _, [] => List.nil_sublist _
  | index, item :: rest => by
    rw [carouselsFrom, waysFrom, List.map_append, List.map_append, List.map_map]
    exact (item.sublist_carousels (itemPath path index)).append
      (sublist_carouselsFrom path (index + 1) rest)

end

/-- No two carousels of a body have the same path. -/
theorem nodup_carouselsFrom (path : String) (index : Nat) (items : List Item) :
    ((carouselsFrom path index items).map (·.path)).Nodup :=
  ((nodup_waysFrom index items).map (pathFrom_injective path)).sublist
    (sublist_carouselsFrom path index items)

/-! ## What is kept of a carousel -/

/-- What is kept of a carousel besides the pages themselves. -/
structure CarouselRecord where
  /-- The number of pages. -/
  pages : Nat
  scroll : Binary64
  deriving DecidableEq

namespace CarouselRecord

/-- Whether a carousel of so many pages finds something to claim. -/
def isReused (before : Option CarouselRecord) (pages : Nat) : Bool :=
  before.any (·.pages = pages)

/-- How far a carousel of so many pages is scrolled once it has claimed what there was. -/
def claimedScroll (before : Option CarouselRecord) (pages : Nat) : Binary64 :=
  ((before.filter (·.pages = pages)).map (·.scroll)).getD 0

@[simp] theorem claimedScroll_none (pages : Nat) : claimedScroll none pages = 0 := rfl

@[simp] theorem claimedScroll_some (r : CarouselRecord) (pages : Nat) :
    claimedScroll (some r) pages = if r.pages = pages then r.scroll else 0 := by
  by_cases h : r.pages = pages <;> simp [claimedScroll, Option.filter_some, h]

@[simp] theorem isReused_none (pages : Nat) : isReused none pages = false := rfl

@[simp] theorem isReused_some (r : CarouselRecord) (pages : Nat) :
    isReused (some r) pages = decide (r.pages = pages) := rfl

end CarouselRecord

variable {π : Type}

def CarouselState.record (s : CarouselState π) : CarouselRecord := ⟨s.pages.length, s.scroll⟩

namespace CarouselCache

open CarouselRecord

/-- What is kept of a carousel. -/
def record? (cs : CarouselCache π) (key : CarouselKey) : Option CarouselRecord :=
  (cs.get? key).map (·.record)

/-- What may be claimed of a carousel of the rendering before. -/
def offer? (cs : CarouselCache π) (key : CarouselKey) : Option CarouselRecord :=
  (cs.previous.find? key).map (·.record)

variable {cs before middle after : CarouselCache π} {key : CarouselKey} {pages : Nat}
  {build : Nat → π}

theorem get?_eq_none_of_record? (h : cs.record? key = none) : cs.get? key = none :=
  Option.map_eq_none_iff.mp h

theorem record?_put (cs : CarouselCache π) (key other : CarouselKey) (state : CarouselState π) :
    (cs.put key state).record? other = if key = other then some state.record
      else cs.record? other := by
  rw [record?, get?_put]
  split <;> rfl

/-- What is claimed under a key that was not claimed before. -/
theorem record_claimed (h : cs.record? key = none) (pages : Nat) (build : Nat → π) :
    (cs.checkout key pages build).1.record = ⟨pages, claimedScroll (cs.offer? key) pages⟩ := by
  have hget := get?_eq_none_of_record? h
  have hscroll : (cs.checkout key pages build).1.scroll = claimedScroll (cs.offer? key) pages := by
    cases hprevious : cs.previous.find? key with
    | none => simp [checkout, hget, reusable?, offer?, hprevious]
    | some state =>
      by_cases hpages : state.pages.length = pages <;>
        simp [checkout, hget, reusable?, offer?, hprevious, hpages, CarouselState.record,
          Option.filter_some]
  rw [CarouselState.record, length_claimed hget, hscroll]

/-- A carousel is built anew exactly if it finds nothing to claim. -/
theorem builds_checkout (cs : CarouselCache π) (key : CarouselKey) (pages : Nat) (build : Nat → π) :
    (cs.checkout key pages build).2.builds =
      cs.builds + if isReused (cs.offer? key) pages then 0 else 1 := by
  cases hprevious : cs.previous.find? key with
  | none => simp [checkout, reusable?, offer?, hprevious]
  | some state =>
    by_cases hpages : state.pages.length = pages <;>
      simp [checkout, reusable?, offer?, hprevious, hpages, CarouselState.record,
        Option.filter_some]

/-- What some carousels of a card make of a cache when each of them claims what there is for it. -/
structure Claims (identity : CardIdentity) (spots : List CarouselSpot)
    (before after : CarouselCache π) : Prop where
  claimed : ∀ spot ∈ spots, after.record? (spot.on identity) =
    some ⟨spot.pages, claimedScroll (before.offer? (spot.on identity)) spot.pages⟩
  others : ∀ key, (∀ spot ∈ spots, spot.on identity ≠ key) →
    after.record? key = before.record? key ∧ after.offer? key = before.offer? key
  builds_eq : after.builds = before.builds +
    spots.countP fun spot => !isReused (before.offer? (spot.on identity)) spot.pages

variable {identity : CardIdentity} {xs ys : List CarouselSpot}

theorem Claims.nil (identity : CardIdentity) (cs : CarouselCache π) : Claims identity [] cs cs where
  claimed _ h := absurd h List.not_mem_nil
  others _ _ := ⟨rfl, rfl⟩
  builds_eq := rfl

/-- A carousel claims what there is, and keeps the number of pages and the scroll offset when its
pages are rendered. -/
theorem Claims.single {spot : CarouselSpot} (h : cs.record? (spot.on identity) = none)
    {cards : List π}
    (hcards : cards.length = (cs.checkout (spot.on identity) spot.pages build).1.pages.length) :
    Claims identity [spot] cs ((cs.checkout (spot.on identity) spot.pages build).2.put
      (spot.on identity)
      { (cs.checkout (spot.on identity) spot.pages build).1 with pages := cards }) := by
  have hclaimed := record_claimed h spot.pages build
  refine ⟨fun other hother => ?_, fun key hkey => ⟨?_, ?_⟩, ?_⟩
  · obtain rfl := List.mem_singleton.mp hother
    rw [record?_put, if_pos rfl, ← hclaimed, CarouselState.record, hcards]
    rfl
  · have hne : spot.on identity ≠ key := hkey spot List.mem_cons_self
    rw [record?_put, if_neg hne, record?, get?_checkout_of_ne hne]
    rfl
  · have hne : spot.on identity ≠ key := hkey spot List.mem_cons_self
    exact congrArg (Option.map _) ((Table.find?_erase ..).trans (if_neg hne))
  · show (cs.checkout (spot.on identity) spot.pages build).2.builds = _
    rw [builds_checkout, List.countP_singleton]
    cases isReused (cs.offer? (spot.on identity)) spot.pages <;> rfl

/-- Carousels at other paths claim independently of each other. -/
theorem Claims.append (h : Claims identity xs before middle) (h' : Claims identity ys middle after)
    (hpaths : ∀ x ∈ xs, ∀ y ∈ ys, x.path ≠ y.path) : Claims identity (xs ++ ys) before after := by
  have hne : ∀ x ∈ xs, ∀ y ∈ ys, x.on identity ≠ y.on identity :=
    fun x hx y hy he => hpaths x hx y hy (congrArg CarouselKey.path he)
  have hoffer : ∀ y ∈ ys, middle.offer? (y.on identity) = before.offer? (y.on identity) :=
    fun y hy => (h.others _ fun x hx => hne x hx y hy).2
  refine ⟨fun spot hspot => ?_, fun key hkey => ?_, ?_⟩
  · rcases List.mem_append.mp hspot with hx | hy
    · rw [(h'.others _ fun y hy => (hne spot hx y hy).symm).1, h.claimed spot hx]
    · rw [h'.claimed spot hy, hoffer spot hy]
  · obtain ⟨hrecord, hoffered⟩ := h.others key fun x hx => hkey x (List.mem_append_left _ hx)
    obtain ⟨hrecord', hoffered'⟩ := h'.others key fun y hy => hkey y (List.mem_append_right _ hy)
    exact ⟨hrecord'.trans hrecord, hoffered'.trans hoffered⟩
  · have hcount : ys.countP (fun y => !isReused (middle.offer? (y.on identity)) y.pages) =
        ys.countP fun y => !isReused (before.offer? (y.on identity)) y.pages :=
      List.countP_congr fun y hy => by rw [hoffer y hy]
    rw [h'.builds_eq, h.builds_eq, hcount, List.countP_append, Nat.add_assoc]

end CarouselCache

/-! ## Arranging -/

namespace Card

variable {σ : Type} [RelationSolver σ] {s : LayoutSettings} {sizes : ImageSizes}
  {identity : CardIdentity}

open CarouselCache

mutual

/-- The carousels of an item have nodes in its outline. -/
theorem exists_node_of_carousel {spot : CarouselSpot} : ∀ (item : Item) (p : Place)
    (cs : CarouselCache (Card σ)), spot ∈ item.carousels p.path →
    ∃ n ∈ (arrange s sizes identity item p cs).1.nodes, n.path = spot.path ∧
      ∃ spacing extent, n.slot = .carousel spacing extent
  | .box view direction items align, p, cs, hspot => by
    rw [arrange_box]
    obtain ⟨n, hn, hcarousel⟩ :=
      exists_node_of_mem items (p.siblings s sizes view direction items) 0 (p.id + 1) cs hspot
    rw [OutlineNode.nodes_eq]
    exact ⟨n, List.mem_cons_of_mem _ hn, hcarousel⟩
  | .text isButton t, p, cs, hspot => absurd hspot List.not_mem_nil
  | .image isButton i, p, cs, hspot => absurd hspot List.not_mem_nil
  | .carousel view pages spacing, p, cs, hspot => by
    obtain rfl := List.mem_singleton.mp hspot
    obtain ⟨extent, harrange⟩ := exists_arrange_carousel s sizes identity view pages spacing p cs
    rw [harrange]
    exact ⟨_, OutlineNode.self_mem_nodes _, rfl, spacing, extent, rfl⟩

theorem exists_node_of_mem {spot : CarouselSpot} : ∀ (items : List Item) (siblings : Siblings)
    (index id : Nat) (cs : CarouselCache (Card σ)),
    spot ∈ carouselsFrom siblings.path index items →
    ∃ n ∈ outlineNodes (arrangeAll s sizes identity siblings items index id cs).1,
      n.path = spot.path ∧ ∃ spacing extent, n.slot = .carousel spacing extent
  | [], siblings, index, id, cs, hspot => absurd hspot List.not_mem_nil
  | item :: rest, siblings, index, id, cs, hspot => by
    rw [arrangeAll_cons, outlineNodes]
    rcases List.mem_append.mp hspot with hspot | hspot
    · obtain ⟨n, hn, hcarousel⟩ :=
        exists_node_of_carousel item (siblings.place id index item) cs hspot
      exact ⟨n, List.mem_append_left _ hn, hcarousel⟩
    · obtain ⟨n, hn, hcarousel⟩ := exists_node_of_mem rest siblings (index + 1) _ _ hspot
      exact ⟨n, List.mem_append_right _ hn, hcarousel⟩

end

/-- Rendering pages leaves their number as it is. -/
theorem length_renderPages (key : CarouselKey) (width : Binary64) :
    ∀ (pages : List (TemplateOf Item)) (index : Nat) (cards : List (Card σ)),
      (renderPages sizes key width pages index cards).length = cards.length
  | [], index, cards => by rw [renderPages]
  | page :: rest, index, [] => by rw [renderPages]
  | page :: rest, index, card :: cards => by
    rw [renderPages, List.length_cons, length_renderPages key width rest, List.length_cons]

mutual

/-- While an item is arranged its carousels that are shown claim what there is for them. -/
theorem claims_arrange (shown : String → Bool) : ∀ (item : Item) (p : Place)
    (cs : CarouselCache (Card σ)),
    (∀ n ∈ (arrange s sizes identity item p cs).1.nodes, shown n.path = !n.hidden) →
    (∀ spot ∈ item.carousels p.path, cs.record? (spot.on identity) = none) →
    Claims identity ((item.carousels p.path).filter (shown ·.path)) cs
      (arrange s sizes identity item p cs).2
  | .box view direction items align, p, cs, hshown, hfree => by
    rw [arrange_box] at hshown ⊢
    rw [OutlineNode.nodes_eq, List.forall_mem_cons] at hshown
    exact claims_arrangeAll shown items (p.siblings s sizes view direction items) _ _ _ hshown.2
      hfree
  | .text isButton t, p, cs, hshown, hfree => by
    rw [arrange_text]
    exact .nil identity cs
  | .image isButton i, p, cs, hshown, hfree => by
    rw [arrange_image]
    exact .nil identity cs
  | .carousel view pages spacing, p, cs, hshown, hfree => by
    cases hhidden : p.hidden with
    | true =>
      rw [arrange_carousel_of_hidden cs hhidden] at hshown ⊢
      have hpath : shown p.path = !p.hidden := hshown _ (OutlineNode.self_mem_nodes _)
      rw [Item.carousels, List.filter_cons_of_neg (by simp [hpath, hhidden]), List.filter_nil]
      exact .nil identity cs
    | false =>
      rw [arrange_carousel_of_shown cs hhidden] at hshown ⊢
      have hpath : shown p.path = !p.hidden := hshown _ (OutlineNode.self_mem_nodes _)
      rw [Item.carousels] at hfree ⊢
      rw [List.filter_cons_of_pos (by simp [hpath, hhidden]), List.filter_nil]
      exact .single (hfree _ List.mem_cons_self) (length_renderPages _ _ pages 0 _)

theorem claims_arrangeAll (shown : String → Bool) : ∀ (items : List Item) (siblings : Siblings)
    (index id : Nat) (cs : CarouselCache (Card σ)),
    (∀ n ∈ outlineNodes (arrangeAll s sizes identity siblings items index id cs).1,
      shown n.path = !n.hidden) →
    (∀ spot ∈ carouselsFrom siblings.path index items, cs.record? (spot.on identity) = none) →
    Claims identity ((carouselsFrom siblings.path index items).filter (shown ·.path)) cs
      (arrangeAll s sizes identity siblings items index id cs).2
  | [], siblings, index, id, cs, hshown, hfree => by
    rw [arrangeAll_nil]
    exact .nil identity cs
  | item :: rest, siblings, index, id, cs, hshown, hfree => by
    rw [arrangeAll_cons] at hshown ⊢
    rw [outlineNodes, List.forall_mem_append] at hshown
    have hpaths := nodup_carouselsFrom siblings.path index (item :: rest)
    rw [carouselsFrom, List.map_append, List.nodup_append] at hpaths
    rw [carouselsFrom, List.forall_mem_append] at hfree
    rw [carouselsFrom, List.filter_append]
    have hne : ∀ x ∈ item.carousels (itemPath siblings.path index),
        ∀ y ∈ carouselsFrom siblings.path (index + 1) rest, x.path ≠ y.path :=
      fun x hx y hy => hpaths.2.2 _ (List.mem_map_of_mem hx) _ (List.mem_map_of_mem hy)
    have hfirst := claims_arrange shown item (siblings.place id index item) cs hshown.1 hfree.1
    -- What the first item has claimed is not kept under the paths of the rest.
    have hrest : ∀ y ∈ carouselsFrom siblings.path (index + 1) rest,
        (arrange s sizes identity item (siblings.place id index item) cs).2.record?
          (y.on identity) = none := by
      intro y hy
      refine (hfirst.others _ fun x hx he => ?_).1.trans (hfree.2 y hy)
      exact hne x (List.mem_of_mem_filter hx) y hy (congrArg CarouselKey.path he)
    exact hfirst.append (claims_arrangeAll shown rest siblings (index + 1) _ _ hshown.2 hrest)
      fun x hx y hy => hne x (List.mem_of_mem_filter hx) y (List.mem_of_mem_filter hy)

end

/-- Nothing is kept for a node that is hidden, when nothing was kept before. -/
theorem get?_of_hidden {items : List Item} {cs : CarouselCache (Card σ)} {n : OutlineNode}
    (hn : n ∈ (bodyOutline s sizes identity items cs).nodes) (hhidden : n.hidden = true)
    (hcs : ∀ key, cs.record? key = none) :
    (arrangeAll s sizes identity (bodySiblings s sizes items) items 0 1 cs).2.get?
      ⟨identity, n.path⟩ = none := by
  let root := bodyOutline s sizes identity items cs
  let shown (path : String) : Bool := root.nodes.any fun k => k.path = path && !k.hidden
  have hshown : ∀ k ∈ root.nodes, shown k.path = !k.hidden := by
    intro k hk
    rw [Bool.eq_iff_iff, List.any_eq_true]
    constructor
    · rintro ⟨m, hm, hshows⟩
      obtain ⟨hpath, hm'⟩ := Bool.and_eq_true_iff.mp hshows
      obtain rfl : m = k := List.inj_on_of_nodup_map (nodup_paths_bodyOutline s sizes identity
        items cs) hm hk (of_decide_eq_true hpath)
      exact hm'
    · exact fun hk' => ⟨k, hk, Bool.and_eq_true_iff.mpr ⟨decide_eq_true rfl, hk'⟩⟩
  have hbelow : ∀ k ∈ outlineNodes (arrangeAll s sizes identity (bodySiblings s sizes items) items 0
      1 cs).1, k ∈ root.nodes := by
    intro k hk
    rw [OutlineNode.nodes_eq]
    exact List.mem_cons_of_mem _ hk
  have hclaims := claims_arrangeAll shown items (bodySiblings s sizes items) 0 1 cs
    (fun k hk => hshown k (hbelow k hk)) fun spot _ => hcs _
  refine get?_eq_none_of_record?
    ((hclaims.others ⟨identity, n.path⟩ fun spot hspot hkey => ?_).1.trans (hcs _))
  have hpath : spot.path = n.path := congrArg CarouselKey.path hkey
  have hspot := (List.mem_filter.mp hspot).2
  simp [hpath, hshown n hn, hhidden] at hspot

end Card
end MessageCard
