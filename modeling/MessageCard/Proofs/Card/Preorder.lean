import MessageCard.Proofs.Card.Kept
import MessageCard.Proofs.Layout.Trees

/-!
# Layouts as numberings of their items

The items of a body can be listed in depth-first order, each with the way down to it. The nodes of a
layout below its root are these items one for one, hidden ones too, and the pages of a carousel are
none of them. So the number of a node is its place in the list, and its path, followed from the
body, leads to its item.
-/
namespace MessageCard

/-! ## The items of a body and the ways to them -/

/-- The item at the end of a way that starts at an item. -/
def Item.descend? : List Nat → Item → Option Item
  | [], item => some item
  | i :: way, .box _ _ items _ => items[i]?.bind (descend? way)
  | _ :: _, _ => none

/-- The item at the end of a way that starts at the body. -/
def itemAt? (items : List Item) : List Nat → Option Item
  | [] => none
  | i :: way => items[i]?.bind (Item.descend? way)

mutual

/-- An item and all items in it, each after the way to it. -/
def Item.located : Item → List (List Nat × Item)
  | .box view direction items align =>
    ([], .box view direction items align) :: locatedFrom 0 items
  | .text isButton t => [([], .text isButton t)]
  | .image isButton i => [([], .image isButton i)]
  | .carousel view pages spacing => [([], .carousel view pages spacing)]

/-- The items of a box from an index on, with all items in them, each after the way to it. -/
def locatedFrom : Nat → List Item → List (List Nat × Item)
  | _, [] => []
  | index, item :: rest =>
    item.located.map (fun e => (index :: e.1, e.2)) ++ locatedFrom (index + 1) rest

end

mutual

theorem Item.length_located : ∀ item : Item, item.located.length = item.count
  | .box _ _ items _ => by
    rw [Item.located, List.length_cons, length_locatedFrom, Item.count, Nat.add_comm]
  | .text _ _ => rfl
  | .image _ _ => rfl
  | .carousel _ _ _ => rfl

theorem length_locatedFrom : ∀ (index : Nat) (items : List Item),
    (locatedFrom index items).length = countItems items
  | _, [] => rfl
  | index, item :: rest => by
    rw [locatedFrom, List.length_append, List.length_map, item.length_located,
      length_locatedFrom, countItems]

end

/-- A way through the items of a box begins with an index among them. -/
theorem mem_map_located_iff {index : Nat} {item x : Item} {way : List Nat} :
    (way, x) ∈ item.located.map (fun e => (index :: e.1, e.2)) ↔
      ∃ rest, way = index :: rest ∧ (rest, x) ∈ item.located := by
  rw [List.mem_map]
  constructor
  · rintro ⟨⟨rest, y⟩, hmem, heq⟩
    cases heq
    exact ⟨rest, rfl, hmem⟩
  · rintro ⟨rest, rfl, hmem⟩
    exact ⟨(rest, x), hmem, rfl⟩

mutual

/-- An item is listed with the ways that lead to it. -/
theorem Item.mem_located_iff : ∀ (item : Item) {way : List Nat} {x : Item},
    (way, x) ∈ item.located ↔ Item.descend? way item = some x
  | .box view direction items align, way, x => by
    rw [Item.located, List.mem_cons, mem_locatedFrom_iff]
    cases way with
    | nil => simp [Item.descend?, eq_comm]
    | cons i way => simp [Item.descend?, itemAt?]
  | .text isButton t, way, x => by cases way <;> simp [Item.located, Item.descend?, eq_comm]
  | .image isButton i, way, x => by cases way <;> simp [Item.located, Item.descend?, eq_comm]
  | .carousel view pages spacing, way, x => by
    cases way <;> simp [Item.located, Item.descend?, eq_comm]

theorem mem_locatedFrom_iff : ∀ {index : Nat} {items : List Item} {way : List Nat} {x : Item},
    (way, x) ∈ locatedFrom index items ↔
      ∃ i rest, way = (index + i) :: rest ∧ itemAt? items (i :: rest) = some x
  | index, [], way, x => by simp [locatedFrom, itemAt?]
  | index, item :: others, way, x => by
    rw [locatedFrom, List.mem_append, mem_map_located_iff, mem_locatedFrom_iff]
    constructor
    · rintro (⟨rest, rfl, hmem⟩ | ⟨i, rest, rfl, hmem⟩)
      · exact ⟨0, rest, rfl, item.mem_located_iff.mp hmem⟩
      · exact ⟨i + 1, rest, by rw [Nat.add_right_comm, Nat.add_assoc], hmem⟩
    · rintro ⟨i, rest, rfl, hmem⟩
      cases i with
      | zero => exact .inl ⟨rest, rfl, item.mem_located_iff.mpr hmem⟩
      | succ i => exact .inr ⟨i, rest, by rw [Nat.add_right_comm, Nat.add_assoc], hmem⟩

end

theorem mem_locatedFrom_zero {items : List Item} {way : List Nat} {x : Item} :
    (way, x) ∈ locatedFrom 0 items ↔ itemAt? items way = some x := by
  rw [mem_locatedFrom_iff]
  cases way with
  | nil => simp [itemAt?]
  | cons i way => simp

/-! ## What a node shows of its item -/

/-- What a node shows is what its item holds. -/
def ContentOf.Shows {τ : Type} : ContentOf τ → Item → Prop
  | .box direction, .box _ direction' _ _ => direction = direction'
  | .text c, .text isButton t => c.text = t.text ∧ c.isButton = isButton ∧
      c.color = t.style.color ∧ c.weight = t.style.weight ∧ c.align = t.align.horizontal
  | .image c, .image isButton i =>
      c.url = i.url ∧ c.mode = i.contentMode ∧ c.tint = i.tint ∧ c.isButton = isButton
  | .carousel spacing _ _, .carousel _ _ spacing' => spacing = spacing'
  | _, _ => False

/-- A node of a layout shows an item: its look, its action and its content. -/
structure LayoutNode.ShowsItem (n : LayoutNode) (item : Item) : Prop where
  style_eq : n.style = item.view.nodeStyle
  action_eq : n.action = item.view.action
  content : n.content.Shows item

/-- A node of an outline stands for an item at the end of a way, whatever it is drawn with. -/
structure OutlineNode.StandsFor (start : String) (n : OutlineNode) (e : List Nat × Item) :
    Prop where
  path_eq : n.path = pathFrom start e.1
  view_eq : n.view = e.2.view
  content : ∀ d : Drawing, (d.content n).Shows e.2

/-- A node of a layout stands for an item at the end of a way. -/
structure LayoutNode.StandsFor (start : String) (n : LayoutNode) (e : List Nat × Item) :
    Prop where
  path_eq : n.path = pathFrom start e.1
  shows : n.ShowsItem e.2

theorem Drawing.Draws.standsFor {d : Drawing} {t : LayoutNode} {n : OutlineNode} {start : String}
    {e : List Nat × Item} (h : d.Draws t n) (he : n.StandsFor start e) : t.StandsFor start e where
  path_eq := h.path_eq.trans he.path_eq
  shows := {
    style_eq := by rw [h.style_eq, he.view_eq]
    action_eq := by rw [h.action_eq, he.view_eq]
    content := h.content_eq ▸ he.content d }

namespace Card

variable {σ : Type} [RelationSolver σ] {s : LayoutSettings} {sizes : ImageSizes}
  {identity : CardIdentity}

mutual

/-- The nodes of an item stand for it and the items in it, one for one. -/
theorem forall₂_arrange : ∀ (item : Item) (p : Place) (cs : CarouselCache (Card σ)),
    List.Forall₂ (OutlineNode.StandsFor p.path) (arrange s sizes identity item p cs).1.nodes
      item.located
  | .box view direction items align, p, cs => by
    rw [arrange_box, OutlineNode.nodes_eq, Item.located]
    have hbelow :=
      forall₂_arrangeAll items (p.siblings s sizes view direction items) 0 (p.id + 1) cs
    refine .cons ⟨rfl, rfl, fun d => ?_⟩ hbelow
    exact (rfl : direction = direction)
  | .text isButton t, p, cs => by
    rw [arrange_text]
    refine .cons ⟨rfl, rfl, fun d => ?_⟩ .nil
    exact ⟨rfl, rfl, rfl, rfl, rfl⟩
  | .image isButton i, p, cs => by
    rw [arrange_image]
    refine .cons ⟨rfl, rfl, fun d => ?_⟩ .nil
    exact ⟨rfl, rfl, rfl, rfl⟩
  | .carousel view pages spacing, p, cs => by
    obtain ⟨extent, h⟩ := exists_arrange_carousel s sizes identity view pages spacing p cs
    rw [h]
    refine .cons ⟨rfl, rfl, fun d => ?_⟩ .nil
    simp only [Drawing.content]
    split <;> exact (rfl : spacing = spacing)

theorem forall₂_arrangeAll : ∀ (items : List Item) (siblings : Siblings) (index id : Nat)
    (cs : CarouselCache (Card σ)),
    List.Forall₂ (OutlineNode.StandsFor siblings.path)
      (outlineNodes (arrangeAll s sizes identity siblings items index id cs).1)
      (locatedFrom index items)
  | [], siblings, index, id, cs => by
    rw [arrangeAll_nil]
    exact .nil
  | item :: rest, siblings, index, id, cs => by
    rw [arrangeAll_cons, outlineNodes, locatedFrom]
    refine List.rel_append ?_ (forall₂_arrangeAll rest siblings (index + 1) _ _)
    rw [List.forall₂_map_right_iff]
    -- A way through the item starts one step further down than its path says.
    exact (forall₂_arrange item (siblings.place id index item) cs).imp
      fun _ _ h => ⟨h.path_eq, h.view_eq, h.content⟩

end

end Card

/-! ## The nodes of a layout in their order -/

/-- Elements that are numbered in their order. -/
theorem exists_getElem?_of_ids {α : Type} {key : α → Nat} {xs : List α} {count i : Nat}
    (h : xs.map key = List.range count) (hi : i < count) : ∃ x, xs[i]? = some x ∧ key x = i := by
  have hget : (xs.map key)[i]? = some i := by rw [h, List.getElem?_range hi]
  rwa [List.getElem?_map, Option.map_eq_some_iff] at hget

/-- A layout numbers the items of a body in depth-first order: its nodes are the root and then the
items, one for one. -/
structure LayoutOf.Numbers (t : LayoutTree) (items : List Item) : Prop where
  ids : t.nodes.map (·.id) = List.range (countItems items + 1)
  root_path : t.root.path = "body"
  items : List.Forall₂ (LayoutNode.StandsFor "body") (nodesOf t.root.children)
    (locatedFrom 0 items)
  paths : (t.nodes.map (·.path)).Nodup

namespace LayoutOf.Numbers

variable {t : LayoutTree} {items : List Item}

theorem nodup_ids (h : t.Numbers items) : (t.nodes.map (·.id)).Nodup := h.ids ▸ List.nodup_range

/-- The numbers grow along the nodes. -/
theorem pairwise_id (h : t.Numbers items) : t.nodes.Pairwise (·.id < ·.id) := by
  have hrange := List.pairwise_lt_range (n := countItems items + 1)
  rwa [← h.ids, List.pairwise_map] at hrange

theorem root_id (h : t.Numbers items) : t.root.id = 0 := by
  have hids := h.ids
  rw [nodes_eq, List.map_cons, List.range_succ_eq_map] at hids
  exact (List.cons.inj hids).1

theorem ne_root (h : t.Numbers items) {n : LayoutNode} (hid : n.id ≠ 0) : n ≠ t.root := by
  rintro rfl
  exact hid h.root_id

/-- The path of a node, followed from the body, leads to the item that the node shows. -/
theorem leads (h : t.Numbers items) {n : LayoutNode} (hn : n ∈ t.nodes) (hid : n.id ≠ 0) :
    ∃ way item, n.path = pathFrom "body" way ∧ itemAt? items way = some item ∧
      n.ShowsItem item := by
  rw [nodes_eq, List.mem_cons] at hn
  obtain ⟨⟨way, item⟩, he, hstands⟩ :=
    (exists_of_forall₂ h.items).1 n (hn.resolve_left (h.ne_root hid))
  exact ⟨way, item, hstands.path_eq, mem_locatedFrom_zero.mp he, hstands.shows⟩

/-- Every item of the body has its node at the path that leads to it. -/
theorem found (h : t.Numbers items) {way : List Nat} {item : Item}
    (hitem : itemAt? items way = some item) :
    ∃ n, t.findPath? (pathFrom "body" way) = some n ∧ n.ShowsItem item := by
  obtain ⟨n, hn, hstands⟩ := (exists_of_forall₂ h.items).2 _ (mem_locatedFrom_zero.mpr hitem)
  have hmem : n ∈ t.nodes := by
    rw [nodes_eq]
    exact List.mem_cons_of_mem _ hn
  refine ⟨n, ?_, hstands.shows⟩
  rw [← hstands.path_eq]
  exact findPath?_path h.paths hmem

theorem existsUnique_parent (h : t.Numbers items) {n : LayoutNode} (hn : n ∈ t.nodes)
    (hid : n.id ≠ 0) : ∃! m, m ∈ t.nodes ∧ n ∈ m.children :=
  LayoutOf.existsUnique_parent h.nodup_ids.of_map hn (h.ne_root hid)

end LayoutOf.Numbers

namespace Card

variable {σ : Type} [RelationSolver σ]

/-- What a body is laid out as numbers its items. -/
theorem exists_numbers (c : Card σ) (sizes : ImageSizes) (identity : CardIdentity)
    (items : List Item) : ∃ l : LiveLayout σ,
      (c.renderBody sizes identity items).1.live = some l ∧
      (c.renderBody sizes identity items).2 = .ok l.tree ∧
      l.root = bodyOutline c.settings sizes identity items c.carousels.beginPass ∧
      l.tree.Numbers items := by
  obtain ⟨l, board, hrendered, -, -, hsettled⟩ := exists_settled_renderBody c sizes identity items
  let root := bodyOutline c.settings sizes identity items c.carousels.beginPass
  obtain ⟨d, htree⟩ : ∃ d : Drawing, l.tree = d.tree root := ⟨_, hsettled.tree⟩
  have hdraws : List.Forall₂ d.Draws l.tree.nodes root.nodes := htree ▸ d.forall₂_tree root
  have hids := map_eq_map_of_forall₂ (f := (·.id)) (g := (·.id)) hdraws fun h => h.id_eq
  have hpaths := map_eq_map_of_forall₂ (f := (·.path)) (g := (·.path)) hdraws fun h => h.path_eq
  refine ⟨l, by rw [hrendered], by rw [hrendered], hsettled.root_eq, ?_, ?_, ?_, ?_⟩
  · rw [hids]
    exact ids_bodyOutline ..
  · rw [htree]
    rfl
  · rw [LayoutOf.nodes_eq, OutlineNode.nodes_eq] at hdraws
    cases hdraws with
    | cons _ hbelow =>
      exact forall₂_trans hbelow (forall₂_arrangeAll items _ 0 1 _)
        fun _ _ _ _ hdraw hstands => hdraw.standsFor hstands
  · rw [hpaths]
    exact nodup_paths_bodyOutline ..

/-- The layout of a body has one node for each item besides the root, hidden or not, numbered in
depth-first order as the nodes of the outline are: each node has a greater number than its parent,
and only one parent. No two nodes have the same path, the path of a node, followed from the body,
leads to the item that the node shows, and so does every way to an item lead to its node. -/
theorem numbered_in_preorder (c : Card σ) (sizes : ImageSizes) (identity : CardIdentity)
    (items : List Item) : ∃ l : LiveLayout σ,
      (c.renderBody sizes identity items).1.live = some l ∧
      (c.renderBody sizes identity items).2 = .ok l.tree ∧
      l.tree.nodes.length = (locatedFrom 0 items).length + 1 ∧
      (∀ i, i < l.tree.nodes.length →
        (∃ n, l.root.nodes[i]? = some n ∧ n.id = i) ∧ ∃ n, l.tree.nodes[i]? = some n ∧ n.id = i) ∧
      (∀ n ∈ l.tree.nodes, ∀ child ∈ n.children, n.id < child.id) ∧
      (∀ n ∈ l.tree.nodes, n.id ≠ 0 → ∃! m, m ∈ l.tree.nodes ∧ n ∈ m.children) ∧
      (l.tree.nodes.map (·.path)).Nodup ∧
      List.Forall₂ (LayoutNode.StandsFor "body") l.tree.nodes.tail (locatedFrom 0 items) ∧
      (∀ n ∈ l.tree.nodes, n.id ≠ 0 → ∃ way item, n.path = pathFrom "body" way ∧
        itemAt? items way = some item ∧ n.ShowsItem item) ∧
      (∀ way item, itemAt? items way = some item → ∃ n,
        l.tree.findPath? (pathFrom "body" way) = some n ∧ n.ShowsItem item) ∧
      ∀ n ∈ l.tree.nodes, l.tree.find? n.id = some n ∧ l.tree.findPath? n.path = some n := by
  obtain ⟨l, hlive, htree, hroot, h⟩ := exists_numbers c sizes identity items
  have hlength : l.tree.nodes.length = countItems items + 1 := by
    rw [← List.length_map (f := (·.id)), h.ids, List.length_range]
  refine ⟨l, hlive, htree, by rw [hlength, length_locatedFrom], fun i hi => ⟨?_, ?_⟩,
    fun n hn child => LayoutOf.id_lt_of_mem_children h.pairwise_id hn,
    fun n => h.existsUnique_parent, h.paths, ?_, fun n => h.leads, fun way item => h.found,
    fun n hn => ⟨LayoutOf.find?_id h.nodup_ids hn, LayoutOf.findPath?_path h.paths hn⟩⟩
  · refine exists_getElem?_of_ids ?_ (hlength ▸ hi)
    rw [hroot]
    exact ids_bodyOutline ..
  · exact exists_getElem?_of_ids h.ids (hlength ▸ hi)
  · rw [LayoutOf.nodes_eq]
    exact h.items

end Card
end MessageCard
