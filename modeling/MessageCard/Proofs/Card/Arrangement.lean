import Mathlib.Data.List.Nodup
import MessageCard.Card.Rendering
import MessageCard.Proofs.Layout.Outline

/-!
# Arranged outlines

What an outline looks like that was arranged from items, whatever carousels were there before: its
nodes stand for the items in depth-first order, numbered one after another, each with the view of
its item and a path of its own, and everything in a hidden box is hidden.
-/
namespace MessageCard

/-! ## The items of a body in depth-first order -/

mutual

/-- The views of an item and of all items in it. -/
def Item.views : Item → List View
  | .box view _ items _ => view :: bodyViews items
  | .text _ t => [t.view]
  | .image _ i => [i.view]
  | .carousel view _ _ => [view]

/-- The views of some items and of all items in them. -/
def bodyViews : List Item → List View
  | [] => []
  | item :: rest => item.views ++ bodyViews rest

end

mutual

/-- The ways from an item down to itself and to all items in it. -/
def Item.ways : Item → List (List Nat)
  | .box _ _ items _ => [] :: waysFrom 0 items
  | .text _ _ => [[]]
  | .image _ _ => [[]]
  | .carousel _ _ _ => [[]]

/-- The ways from a box down to its items from an index on, and to all items in them. -/
def waysFrom : Nat → List Item → List (List Nat)
  | _, [] => []
  | index, item :: rest => item.ways.map (index :: ·) ++ waysFrom (index + 1) rest

end

theorem le_of_mem_waysFrom {i index : Nat} {way : List Nat} {items : List Item}
    (h : i :: way ∈ waysFrom index items) : index ≤ i := by
  induction items generalizing index with
  | nil => simp [waysFrom] at h
  | cons item rest ih =>
    rw [waysFrom, List.mem_append] at h
    rcases h with h | h
    · obtain ⟨_, _, heq⟩ := List.mem_map.mp h
      exact Nat.le_of_eq (List.cons.inj heq).1
    · exact Nat.le_of_succ_le (ih h)

theorem nil_not_mem_waysFrom (index : Nat) (items : List Item) : [] ∉ waysFrom index items := by
  induction items generalizing index with
  | nil => simp [waysFrom]
  | cons item rest ih => simp [waysFrom, ih]

mutual

theorem Item.nodup_ways : ∀ item : Item, item.ways.Nodup
  | .box _ _ items _ => by
    rw [Item.ways, List.nodup_cons]
    exact ⟨nil_not_mem_waysFrom 0 items, nodup_waysFrom 0 items⟩
  | .text _ _ => List.nodup_singleton _
  | .image _ _ => List.nodup_singleton _
  | .carousel _ _ _ => List.nodup_singleton _

theorem nodup_waysFrom : ∀ (index : Nat) (items : List Item), (waysFrom index items).Nodup
  | _, [] => List.nodup_nil
  | index, item :: rest => by
    rw [waysFrom, List.nodup_append]
    refine ⟨item.nodup_ways.map fun _ _ h => (List.cons.inj h).2, nodup_waysFrom _ rest, ?_⟩
    intro way hway other hother heq
    obtain ⟨tail, _, rfl⟩ := List.mem_map.mp hway
    have hle := le_of_mem_waysFrom (heq ▸ hother)
    omega

end

namespace Card

variable {σ : Type} [RelationSolver σ] {s : LayoutSettings} {sizes : ImageSizes}
  {identity : CardIdentity}

/-! ## Arranging, case by case -/

theorem arrange_box (view : View) (direction : Direction) (items : List Item) (align : Align)
    (p : Place) (cs : CarouselCache (Card σ)) :
    arrange s sizes identity (.box view direction items align) p cs =
      let siblings := p.siblings s sizes view direction items
      let below := arrangeAll s sizes identity siblings items 0 (p.id + 1) cs
      (p.node view (.box ⟨direction, align, siblings.plan.overflows⟩) below.1, below.2) := by
  rw [arrange]

theorem arrange_text (isButton : Bool) (t : TextItem) (p : Place) (cs : CarouselCache (Card σ)) :
    arrange s sizes identity (.text isButton t) p cs =
      (p.node t.view (.text (p.textSlot s isButton t)) [], cs) := by
  rw [arrange]

theorem arrange_image (isButton : Bool) (i : ImageItem) (p : Place) (cs : CarouselCache (Card σ)) :
    arrange s sizes identity (.image isButton i) p cs =
      (p.node i.view (.image (i.slot isButton)) [], cs) := by
  rw [arrange]

variable (s sizes identity) in
/-- The node of a carousel shows pages of some extent. -/
theorem exists_arrange_carousel (view : View) (pages : List (TemplateOf Item)) (spacing : Binary64)
    (p : Place) (cs : CarouselCache (Card σ)) :
    ∃ extent, (arrange s sizes identity (.carousel view pages spacing) p cs).1 =
      p.node view (.carousel spacing extent) [] := by
  rw [arrange]
  split
  · exact ⟨_, rfl⟩
  · exact ⟨_, rfl⟩

theorem arrangeAll_nil (siblings : Siblings) (index id : Nat) (cs : CarouselCache (Card σ)) :
    arrangeAll s sizes identity siblings [] index id cs = ([], cs) := by
  rw [arrangeAll]

theorem arrangeAll_cons (siblings : Siblings) (item : Item) (rest : List Item) (index id : Nat)
    (cs : CarouselCache (Card σ)) :
    arrangeAll s sizes identity siblings (item :: rest) index id cs =
      let first := arrange s sizes identity item (siblings.place id index item) cs
      let others := arrangeAll s sizes identity siblings rest (index + 1) (id + item.count) first.2
      (first.1 :: others.1, others.2) := by
  rw [arrangeAll]

variable (s sizes identity) in
/-- The node of an item has the view of the item and all that its place says. -/
theorem exists_arrange (item : Item) (p : Place) (cs : CarouselCache (Card σ)) :
    ∃ slot children, (arrange s sizes identity item p cs).1 = p.node item.view slot children := by
  cases item with
  | box view direction items align => exact ⟨_, _, by rw [arrange_box]; rfl⟩
  | text isButton t => exact ⟨_, _, by rw [arrange_text]; rfl⟩
  | image isButton i => exact ⟨_, _, by rw [arrange_image]; rfl⟩
  | carousel view pages spacing =>
    obtain ⟨extent, h⟩ := exists_arrange_carousel s sizes identity
      view pages spacing p cs
    exact ⟨_, _, h⟩

/-! ## Numbers -/

mutual

/-- The nodes of an item are numbered from the number of its place on. -/
theorem ids_arrange : ∀ (item : Item) (p : Place) (cs : CarouselCache (Card σ)),
    (arrange s sizes identity item p cs).1.nodes.map (·.id) = List.range' p.id item.count
  | .box view direction items align, p, cs => by
    simp only [arrange_box, OutlineNode.nodes_eq, Place.node, List.map_cons, Item.count,
      ids_arrangeAll items, Nat.add_comm 1, List.range'_succ]
  | .text isButton t, p, cs => by rw [arrange_text]; rfl
  | .image isButton i, p, cs => by rw [arrange_image]; rfl
  | .carousel view pages spacing, p, cs => by
    obtain ⟨extent, h⟩ := exists_arrange_carousel s sizes identity
      view pages spacing p cs
    rw [h]
    rfl

theorem ids_arrangeAll : ∀ (items : List Item) (siblings : Siblings) (index id : Nat)
    (cs : CarouselCache (Card σ)),
    (outlineNodes (arrangeAll s sizes identity siblings items index id cs).1).map (·.id) =
      List.range' id (countItems items)
  | [], siblings, index, id, cs => by rw [arrangeAll_nil]; rfl
  | item :: rest, siblings, index, id, cs => by
    simp only [arrangeAll_cons, outlineNodes, List.map_append, ids_arrange item,
      ids_arrangeAll rest, countItems]
    exact List.range'_append_1

end

/-! ## Paths and views -/

mutual

/-- Each node of an item has the path along the way to its item. -/
theorem paths_arrange : ∀ (item : Item) (p : Place) (cs : CarouselCache (Card σ)),
    (arrange s sizes identity item p cs).1.nodes.map (·.path) = item.ways.map (pathFrom p.path)
  | .box view direction items align, p, cs => by
    simp only [arrange_box, OutlineNode.nodes_eq, Place.node, List.map_cons, Item.ways,
      paths_arrangeAll items]
    rfl
  | .text isButton t, p, cs => by rw [arrange_text]; rfl
  | .image isButton i, p, cs => by rw [arrange_image]; rfl
  | .carousel view pages spacing, p, cs => by
    obtain ⟨extent, h⟩ := exists_arrange_carousel s sizes identity
      view pages spacing p cs
    rw [h]
    rfl

theorem paths_arrangeAll : ∀ (items : List Item) (siblings : Siblings) (index id : Nat)
    (cs : CarouselCache (Card σ)),
    (outlineNodes (arrangeAll s sizes identity siblings items index id cs).1).map (·.path) =
      (waysFrom index items).map (pathFrom siblings.path)
  | [], siblings, index, id, cs => by rw [arrangeAll_nil]; rfl
  | item :: rest, siblings, index, id, cs => by
    simp only [arrangeAll_cons, outlineNodes, List.map_append, paths_arrange item,
      paths_arrangeAll rest, waysFrom, List.map_map]
    rfl

end

mutual

/-- Each node of an item has the view of its item. -/
theorem views_arrange : ∀ (item : Item) (p : Place) (cs : CarouselCache (Card σ)),
    (arrange s sizes identity item p cs).1.nodes.map (·.view) = item.views
  | .box view direction items align, p, cs => by
    simp only [arrange_box, OutlineNode.nodes_eq, Place.node, List.map_cons, Item.views,
      views_arrangeAll items]
  | .text isButton t, p, cs => by rw [arrange_text]; rfl
  | .image isButton i, p, cs => by rw [arrange_image]; rfl
  | .carousel view pages spacing, p, cs => by
    obtain ⟨extent, h⟩ := exists_arrange_carousel s sizes identity
      view pages spacing p cs
    rw [h]
    rfl

theorem views_arrangeAll : ∀ (items : List Item) (siblings : Siblings) (index id : Nat)
    (cs : CarouselCache (Card σ)),
    (outlineNodes (arrangeAll s sizes identity siblings items index id cs).1).map (·.view) =
      bodyViews items
  | [], siblings, index, id, cs => by rw [arrangeAll_nil]; rfl
  | item :: rest, siblings, index, id, cs => by
    simp only [arrangeAll_cons, outlineNodes, List.map_append, views_arrange item,
      views_arrangeAll rest, bodyViews]

end

/-! ## Hidden boxes -/

/-- All items of a hidden box are hidden. -/
theorem hidden_arrangeAll {siblings : Siblings} (h : siblings.hidden = true) :
    ∀ (items : List Item) (index id : Nat) (cs : CarouselCache (Card σ)),
      ∀ n ∈ (arrangeAll s sizes identity siblings items index id cs).1, n.hidden = true
  | [], index, id, cs => by rw [arrangeAll_nil]; simp
  | item :: rest, index, id, cs => by
    rw [arrangeAll_cons]
    intro n hn
    rcases List.mem_cons.mp hn with rfl | hn
    · obtain ⟨slot, children, hfirst⟩ := exists_arrange s sizes identity item
        (siblings.place id index item) cs
      rw [hfirst]
      simp [Place.node, Siblings.place, h]
    · exact hidden_arrangeAll h rest _ _ _ n hn

mutual

theorem isRegular_arrange : ∀ (item : Item) (p : Place) (cs : CarouselCache (Card σ)),
    ∀ n ∈ (arrange s sizes identity item p cs).1.nodes, n.IsRegular
  | .box view direction items align, p, cs => by
    rw [arrange_box, OutlineNode.nodes_eq, List.forall_mem_cons]
    refine ⟨⟨fun h => ?_, fun h => by cases h⟩, isRegular_arrangeAll items _ _ _ _⟩
    have hsiblings : (p.siblings s sizes view direction items).hidden = true := h
    exact hidden_arrangeAll hsiblings items _ _ _
  | .text isButton t, p, cs => by
    rw [arrange_text, OutlineNode.nodes_eq, List.forall_mem_cons]
    exact ⟨⟨fun _ => by simp [Place.node], fun _ => rfl⟩, by simp [Place.node, outlineNodes]⟩
  | .image isButton i, p, cs => by
    rw [arrange_image, OutlineNode.nodes_eq, List.forall_mem_cons]
    exact ⟨⟨fun _ => by simp [Place.node], fun _ => rfl⟩, by simp [Place.node, outlineNodes]⟩
  | .carousel view pages spacing, p, cs => by
    obtain ⟨extent, h⟩ := exists_arrange_carousel s sizes identity
      view pages spacing p cs
    rw [h, OutlineNode.nodes_eq, List.forall_mem_cons]
    exact ⟨⟨fun _ => by simp [Place.node], fun _ => rfl⟩, by simp [Place.node, outlineNodes]⟩

theorem isRegular_arrangeAll : ∀ (items : List Item) (siblings : Siblings) (index id : Nat)
    (cs : CarouselCache (Card σ)),
    ∀ n ∈ outlineNodes (arrangeAll s sizes identity siblings items index id cs).1, n.IsRegular
  | [], siblings, index, id, cs => by rw [arrangeAll_nil]; simp [outlineNodes]
  | item :: rest, siblings, index, id, cs => by
    rw [arrangeAll_cons, outlineNodes, List.forall_mem_append]
    exact ⟨isRegular_arrange item _ _, isRegular_arrangeAll rest _ _ _ _⟩

end

/-! ## The outline of a body -/

/-- The outline of a body, with the carousels that were there before. -/
def bodyOutline (s : LayoutSettings) (sizes : ImageSizes) (identity : CardIdentity)
    (items : List Item) (cs : CarouselCache (Card σ)) : OutlineNode :=
  rootNode s (arrangeAll s sizes identity (bodySiblings s sizes items) items 0 1 cs).1

variable (s sizes identity) (items : List Item) (cs : CarouselCache (Card σ))

/-- The nodes of a body are numbered in depth-first order. -/
theorem ids_bodyOutline :
    (bodyOutline s sizes identity items cs).nodes.map (·.id) =
      List.range (countItems items + 1) := by
  rw [OutlineNode.nodes_eq, List.map_cons, bodyOutline, rootNode, ids_arrangeAll,
    List.range_eq_range', List.range'_succ]

theorem nodup_ids_bodyOutline :
    ((bodyOutline s sizes identity items cs).nodes.map (·.id)).Nodup := by
  rw [ids_bodyOutline]
  exact List.nodup_range

/-- The nodes of a body have the paths along the ways to them. -/
theorem paths_bodyOutline : (bodyOutline s sizes identity items cs).nodes.map (·.path) =
    ([] :: waysFrom 0 items).map (pathFrom "body") := by
  rw [OutlineNode.nodes_eq, List.map_cons, bodyOutline, rootNode, paths_arrangeAll]
  rfl

/-- No two nodes of a body have the same path. -/
theorem nodup_paths_bodyOutline :
    ((bodyOutline s sizes identity items cs).nodes.map (·.path)).Nodup := by
  rw [paths_bodyOutline]
  refine List.Nodup.map (pathFrom_injective "body") ?_
  exact List.nodup_cons.mpr ⟨nil_not_mem_waysFrom 0 items, nodup_waysFrom 0 items⟩

theorem isRegular_bodyOutline : ∀ n ∈ (bodyOutline s sizes identity items cs).nodes,
    n.IsRegular := by
  rw [OutlineNode.nodes_eq, List.forall_mem_cons]
  refine ⟨⟨fun h => ?_, fun h => ?_⟩, isRegular_arrangeAll items _ _ _ _⟩
  · cases h
  · cases h

/-- The nodes of a body below the root have the views of its items. -/
theorem view_mem_of_mem_bodyOutline {n : OutlineNode}
    (hn : n ∈ (bodyOutline s sizes identity items cs).nodes) :
    n = bodyOutline s sizes identity items cs ∨ n.view ∈ bodyViews items := by
  rw [OutlineNode.nodes_eq, List.mem_cons] at hn
  refine hn.imp_right fun hn => ?_
  have hviews : (outlineNodes (arrangeAll s sizes identity (bodySiblings s sizes items) items 0 1
      cs).1).map (·.view) = bodyViews items := views_arrangeAll items _ _ _ _
  exact hviews ▸ List.mem_map_of_mem hn

/-- A body of one image is the root with the image below it. -/
theorem bodyOutline_image (isButton : Bool) (i : ImageItem) :
    bodyOutline s sizes identity [.image isButton i] cs = rootNode s
      [⟨1, itemPath "body" 0, i.view, false, false, .image (i.slot isButton), []⟩] := by
  simp only [bodyOutline, arrangeAll_cons, arrange_image, arrangeAll_nil]
  rfl

/-- A body of one carousel is the root with the carousel below it. -/
theorem exists_bodyOutline_carousel (view : View) (pages : List (TemplateOf Item))
    (spacing : Binary64) : ∃ extent,
    bodyOutline s sizes identity [.carousel view pages spacing] cs = rootNode s
      [⟨1, itemPath "body" 0, view, false, false, .carousel spacing extent, []⟩] := by
  let siblings := bodySiblings s sizes [.carousel view pages spacing]
  obtain ⟨extent, h⟩ := exists_arrange_carousel s sizes identity view pages spacing
    (siblings.place 1 0 (.carousel view pages spacing)) cs
  refine ⟨extent, ?_⟩
  simp only [bodyOutline, arrangeAll_cons, arrangeAll_nil]
  rw [h]
  rfl

end Card
end MessageCard
