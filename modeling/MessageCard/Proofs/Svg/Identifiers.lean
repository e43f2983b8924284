import MessageCard.Proofs.Card.Bodies
import MessageCard.Proofs.Svg.References

/-!
# The identifiers of a preview

A document names its definitions, and it names the nodes that are drawn by their paths. Definitions
are numbered through the whole document, so their names differ. A path leads from the body of one
layout to its node, and the layouts on the pages of a carousel have bodies of their own: where a
page is in sight, its root has the name of the root around it. Where none is, all names differ.
-/
namespace MessageCard

/-- Values behind each other differ exactly when those behind do, if they differ from those before
them then. -/
theorem nodup_map_append_map_iff {α β γ : Type} {f : α → γ} {g : β → γ} {xs : List α}
    {ys : List β} {P : Prop} (hf : Function.Injective f) (hg : Function.Injective g)
    (hxs : xs.Nodup) (hys : ys.Nodup ↔ P) (hne : P → ∀ x ∈ xs, ∀ y ∈ ys, f x ≠ g y) :
    (xs.map f ++ ys.map g).Nodup ↔ P := by
  refine ⟨fun h => hys.mp ((List.nodup_append.mp h).2.1.of_map g), fun h => ?_⟩
  refine (hxs.map hf).append ((hys.mpr h).map hg) fun z hz hz' => ?_
  obtain ⟨x, hx, rfl⟩ := List.mem_map.mp hz
  obtain ⟨y, hy, hxy⟩ := List.mem_map.mp hz'
  exact hne h x hx y hy hxy.symm

namespace Svg

/-! ## Pages in sight -/

/-- A layout without a page of a carousel in sight. -/
def HasNoPageInSight (t : LayoutTree) : Prop :=
  ∀ n ∈ t.nodes, n.hidden = false → ∀ spacing scroll pages,
    n.content = .carousel spacing scroll pages → ∀ p ∈ pages, ∀ page, p.tree = some page →
    ¬ IsInSight n.inner scroll p.offset page.width

theorem metNode_eq (n : LayoutNode) : metNode n =
    n :: if n.hidden then [] else metContent n.inner n.content ++ metNodes n.children := by
  cases n
  rw [metNode]

theorem metNodes_eq_flatMap (ns : List LayoutNode) : metNodes ns = ns.flatMap metNode := by
  induction ns with
  | nil => rfl
  | cons n rest ih => rw [metNodes, ih, List.flatMap_cons]

theorem metPages_eq_nil {inner : Rect} {scroll : Binary64} {pages : List (PageOf LayoutTree)}
    (h : ∀ p ∈ pages, ∀ page, p.tree = some page → ¬ IsInSight inner scroll p.offset page.width) :
    metPages inner scroll pages = [] := by
  induction pages with
  | nil => rfl
  | cons p rest ih =>
    obtain ⟨hp, hrest⟩ := List.forall_mem_cons.mp h
    obtain ⟨offset, _ | page⟩ := p
    · rw [metPages, ih hrest]
    · rw [metPages, ih hrest, if_neg (hp page rfl)]
      rfl

/-- The drawing comes to the root of a page that is in sight. -/
theorem root_mem_metPages {inner : Rect} {scroll : Binary64} {pages : List (PageOf LayoutTree)}
    {p : PageOf LayoutTree} (hp : p ∈ pages) {page : LayoutTree} (hpage : p.tree = some page)
    (hsight : IsInSight inner scroll p.offset page.width) :
    page.root ∈ metPages inner scroll pages := by
  induction pages with
  | nil => cases hp
  | cons q rest ih =>
    obtain ⟨offset, tree⟩ := q
    rcases List.mem_cons.mp hp with rfl | hrest
    · obtain rfl : tree = some page := hpage
      rw [metPages, if_pos hsight, metNode_eq]
      exact List.mem_append_left _ List.mem_cons_self
    · cases tree with
      | none =>
        rw [metPages]
        exact ih hrest
      | some other =>
        rw [metPages]
        exact List.mem_append_right _ (ih hrest)

/-- Without pages in sight the drawing comes to no other nodes than those of the layout. -/
theorem HasNoPageInSight.sublist {t : LayoutTree} (h : HasNoPageInSight t) :
    (metNode t.root).Sublist t.nodes := by
  have hall : ∀ m : LayoutNode, (∀ n ∈ m.nodes, n.hidden = false →
      metContent n.inner n.content = []) → (metNode m).Sublist m.nodes := by
    intro m
    induction m using LayoutNode.induction with
    | step m ih =>
      intro hm
      rw [LayoutNode.nodes_eq, LayoutNode.nodesOf_eq, List.forall_mem_cons] at hm
      rw [metNode_eq, LayoutNode.nodes_eq, LayoutNode.nodesOf_eq]
      refine List.Sublist.cons_cons m ?_
      split
      case isTrue => exact List.nil_sublist _
      case isFalse hshown =>
        rw [hm.1 (by simpa using hshown), List.nil_append, metNodes_eq_flatMap]
        exact List.Sublist.flatMap_right _ fun c hc => ih c hc fun n hn =>
          hm.2 n (List.mem_flatMap.mpr ⟨c, hc, hn⟩)
  refine hall t.root fun n hn hshown => ?_
  cases hcontent : n.content with
  | carousel spacing scroll pages =>
    rw [metContent]
    exact metPages_eq_nil (h n hn hshown spacing scroll pages hcontent)
  | _ => simp [metContent]

/-- Where nothing is shown below a hidden node, the drawing comes to what is on the pages of each
node that is shown, after the node at which it starts. -/
theorem mem_met_of_mem_metContent {m n k : LayoutNode} (hregular : ∀ t ∈ m.nodes, t.IsRegular)
    (hn : n ∈ m.nodes) (hshown : n.hidden = false) (hk : k ∈ metContent n.inner n.content) :
    m.hidden = false ∧ k ∈ metContent m.inner m.content ++ metNodes m.children := by
  induction m using LayoutNode.induction with
  | step m ih =>
    rcases LayoutNode.mem_nodes.mp hn with rfl | ⟨c, hc, hn⟩
    · exact ⟨hshown, List.mem_append_left _ hk⟩
    · have hbelow : ∀ t ∈ c.nodes, t.IsRegular := fun t ht =>
        hregular t (LayoutNode.mem_nodes.mpr (.inr ⟨c, hc, ht⟩))
      obtain ⟨hcshown, hmem⟩ := ih c hc hbelow hn
      constructor
      · by_contra hhidden
        rw [hregular m m.self_mem_nodes (by simpa using hhidden) c hc] at hcshown
        cases hcshown
      · rw [metNodes_eq_flatMap]
        refine List.mem_append_right _ (List.mem_flatMap.mpr ⟨c, hc, ?_⟩)
        rw [metNode_eq, if_neg (by simp [hcshown])]
        exact List.mem_cons_of_mem _ hmem

/-! ## Paths -/

/-- The paths of those nodes that are drawn. -/
def drawnPaths (ns : List LayoutNode) : List String := (ns.filter (!·.hidden)).map (·.path)

theorem filterMap_mark (ns : List LayoutNode) :
    ns.filterMap mark? = (drawnPaths ns).map (.text "id") := by
  induction ns with
  | nil => rfl
  | cons n rest ih =>
    cases hhidden : n.hidden <;> simpa [drawnPaths, mark?, hhidden] using ih

/-- The paths of a drawing differ if and only if there is no page in sight, on a layout whose pages
show bodies as it does itself. -/
theorem nodup_drawnPaths_iff {t : LayoutTree} (ht : t.IsOfBody)
    (hpages : ∀ n ∈ t.nodes, n.hidden = false → ∀ spacing scroll pages,
      n.content = .carousel spacing scroll pages → ∀ p ∈ pages, ∀ page, p.tree = some page →
      page.IsOfBody) :
    (drawnPaths (metNode t.root)).Nodup ↔ HasNoPageInSight t := by
  constructor
  · intro hnodup n hn hshown spacing scroll pages hcontent p hp page hpage hsight
    have hpageBody := hpages n hn hshown spacing scroll pages hcontent p hp page hpage
    have hroot : page.root ∈ metContent n.inner n.content := by
      rw [hcontent, metContent]
      exact root_mem_metPages hp hpage hsight
    obtain ⟨hmet, hmem⟩ := mem_met_of_mem_metContent ht.regular hn hshown hroot
    -- The root of the page has the path of the root of the layout.
    rw [metNode_eq, if_neg (by simp [hmet]), drawnPaths,
      List.filter_cons_of_pos (by simp [hmet]), List.map_cons, List.nodup_cons] at hnodup
    refine hnodup.1 (List.mem_map.mpr ⟨page.root, List.mem_filter.mpr ⟨hmem, ?_⟩, ?_⟩)
    · simp [hpageBody.root_shown]
    · rw [hpageBody.root_path, ht.root_path]
  · intro h
    exact ht.nodup.sublist (((List.filter_sublist).trans h.sublist).map _)

/-- The last character of a path, which is written as it is. -/
theorem exists_getLast?_pathFrom (way : List Nat) : ∃ c, Decimal.isDigit c = false ∧
    (pathFrom "body" way).toList.getLast? = some c ∧
    (escape (pathFrom "body" way).toList).getLast? = some c := by
  have hescape : ∀ (s : List Char) (c : Char), c ∉ special →
      (escape (s ++ [c])).getLast? = some c := by
    intro s c hc
    rw [escape_eq_flatMap, List.flatMap_append, List.flatMap_singleton, entity_of_not_mem hc,
      List.getLast?_concat]
  rcases List.eq_nil_or_concat' way with rfl | ⟨steps, i, rfl⟩
  · exact ⟨'y', by decide, by decide, hescape ['b', 'o', 'd'] 'y' (by decide)⟩
  · have hlist : (pathFrom "body" (steps ++ [i])).toList =
        ((pathFrom "body" steps).toList ++ ".items[".toList ++ (toString i).toList) ++ [']'] := by
      have hclose : "]".toList = [']'] := rfl
      rw [pathFrom_concat, itemPath, String.toList_append, String.toList_append,
        String.toList_append, hclose]
    rw [hlist]
    exact ⟨']', by decide, List.getLast?_concat, hescape _ ']' (by decide)⟩

/-- The name of a definition ends in a digit. -/
theorem exists_getLast?_named {start name : String} {clips tints : Nat} {defs : List Definition}
    {d : Definition} (h : (name, d) ∈ Definition.named start clips tints defs) :
    ∃ c, Decimal.isDigit c = true ∧ name.toList.getLast? = some c := by
  have hdigits : ∀ (p : String) (n : Nat), ∃ c, Decimal.isDigit c = true ∧
      (p ++ toString n).toList.getLast? = some c := by
    intro p n
    have hlist : (toString n).toList = Nat.toDigits 10 n := by simp [toString, Nat.repr]
    have hne : Nat.toDigits 10 n ≠ [] := Nat.toDigits_ne_nil
    refine ⟨(Nat.toDigits 10 n).getLast hne, Decimal.isDigits_toDigits n _
      (List.getLast_mem hne), ?_⟩
    rw [String.toList_append, hlist, List.getLast?_append, List.getLast?_eq_some_getLast hne]
    rfl
  obtain ⟨k, -, rfl⟩ | ⟨k, color, -, -, rfl⟩ := Definition.mem_named.mp h
  · exact hdigits _ _
  · exact hdigits _ _

/-- No definition has the path of a node as its name, as it is or as it is written. -/
theorem named_ne_pathFrom {start name : String} {clips tints : Nat} {defs : List Definition}
    {d : Definition} (h : (name, d) ∈ Definition.named start clips tints defs) (way : List Nat) :
    name.toList ≠ (pathFrom "body" way).toList ∧
      name.toList ≠ escape (pathFrom "body" way).toList := by
  obtain ⟨c, hdigit, hname⟩ := exists_getLast?_named h
  obtain ⟨e, hother, hpath, hescaped⟩ := exists_getLast?_pathFrom way
  have hne : some c ≠ some e := by
    rintro heq
    cases heq
    rw [hdigit] at hother
    cases hother
  refine ⟨fun heq => hne ?_, fun heq => hne ?_⟩
  · rw [← hname, heq, hpath]
  · rw [← hname, heq, hescaped]

theorem escape_toList_injective : Function.Injective fun s : String => escape s.toList := by
  intro s t h
  have hdecoded := congrArg decode? h
  simpa [String.toList_inj] using hdecoded

/-! ## Identifiers -/

/-- The values of the `id` attributes of a document, as they are written. -/
def Document.ids (d : Document) (s : SvgSettings) : List (List Char) :=
  ((d.element s).tags.flatMap Svg.ids).map (·.written)

/-- The values of the `id` attributes of a document that is read. -/
def Xml.ids (x : Xml) : List String := x.tags.flatMap fun t => (t.2.filter (·.1 = "id")).map (·.2)

theorem Element.ids_read (e : Element) :
    e.read.ids = (e.tags.flatMap ids).map fun a => a.read.2 := by
  rw [Xml.ids, tags_read, List.flatMap_map, List.map_flatMap]
  refine List.flatMap_congr fun t _ => ?_
  rw [filter_readTag, List.map_map]
  rfl

section

variable (s : SvgSettings) (t : Theme) (a : Appearance) (tree : LayoutTree)

/-- The names that stand in a drawing: those of the definitions, and then the paths. -/
theorem flatMap_ids_draw : ((draw s t a tree).element s).tags.flatMap ids =
    ((draw s t a tree).named s).map (fun e => .word "id" e.1) ++
      (drawnPaths (metNode tree.root)).map (.text "id") := by
  rw [(refers_draw s t a tree).names_eq, filterMap_mark, Document.definitionIds]

theorem ids_draw : (draw s t a tree).ids s =
    (((draw s t a tree).named s).map (·.1)).map (·.toList) ++
      (drawnPaths (metNode tree.root)).map fun path => escape path.toList := by
  rw [Document.ids, flatMap_ids_draw, List.map_append, List.map_map, List.map_map, List.map_map]
  simp only [Function.comp_def, Attribute.word, Attribute.text]

theorem ids_read_draw (hstart : IsPlain s.classStart.toList) :
    ((draw s t a tree).element s).read.ids =
      ((draw s t a tree).named s).map (·.1) ++ drawnPaths (metNode tree.root) := by
  have hnames : ((draw s t a tree).named s).map (fun e => (Attribute.word "id" e.1).read.2) =
      ((draw s t a tree).named s).map (·.1) := by
    refine List.map_congr_left fun e he => ?_
    rw [Attribute.read_word _ (Definition.isPlain_of_mem_named hstart he)]
  have hpaths : ∀ paths : List String,
      paths.map (fun path => (Attribute.text "id" path).read.2) = paths := by
    intro paths
    simp [Attribute.read_text]
  rw [Element.ids_read, flatMap_ids_draw, List.map_append, List.map_map, List.map_map]
  exact congrArg₂ _ hnames (hpaths _)

end

/-- In the preview of a layout that a card shows, the identifiers differ if and only if no page of a
carousel is in sight. Those of definitions differ in any case. The others are the paths of all nodes
that are drawn, pages included, and the root of a page has the path of the root around it. -/
theorem ids_differ_without_pages {σ : Type} [RelationSolver σ] {c : Card σ} (hc : c.Reachable)
    {tree : LayoutTree} (htree : c.tree? = some tree) (s : SvgSettings) (t : Theme)
    (a : Appearance) :
    let d := draw s t a tree
    let names := (d.named s).map (·.1)
    let paths := drawnPaths (metNode tree.root)
    d.ids s = names.map (·.toList) ++ paths.map (fun path => escape path.toList) ∧ names.Nodup ∧
    ((d.ids s).Nodup ↔ HasNoPageInSight tree) ∧
    (IsPlain s.classStart.toList → t.IsPlain →
      ∃ x, read? (render s t a tree).toList = some x ∧ x.ids = names ++ paths ∧
        (x.ids.Nodup ↔ HasNoPageInSight tree)) := by
  intro d names paths
  have hbodies := Card.lasts_isOfBody.showsOnly hc
  have hbody : tree.IsOfBody := Card.tree_isOfBody hbodies hc.isKept htree
  have hpaths : paths.Nodup ↔ HasNoPageInSight tree :=
    nodup_drawnPaths_iff hbody fun n hn hshown spacing scroll pages hcontent p hp page hpage =>
      Card.pageTree_isOfBody hbodies hc.isKept htree hn hshown hcontent hp hpage
  have hnames : names.Nodup := Definition.nodup_names ..
  have hids : d.ids s = names.map (·.toList) ++ paths.map fun path => escape path.toList :=
    ids_draw s t a tree
  -- Without pages in sight every path is one of the body, so no definition has it as its name.
  have hends : HasNoPageInSight tree → ∀ name ∈ names, ∀ path ∈ paths,
      name.toList ≠ path.toList ∧ name.toList ≠ escape path.toList := by
    intro h name hname path hpath
    obtain ⟨⟨_, definition⟩, hmem, rfl⟩ := List.mem_map.mp hname
    obtain ⟨n, hn, rfl⟩ := List.mem_map.mp hpath
    obtain ⟨way, hway⟩ := hbody.paths n (h.sublist.subset (List.mem_of_mem_filter hn))
    exact hway ▸ named_ne_pathFrom hmem way
  have hwritten : (d.ids s).Nodup ↔ HasNoPageInSight tree := by
    rw [hids]
    exact nodup_map_append_map_iff (fun _ _ => String.toList_inj.mp) escape_toList_injective hnames
      hpaths fun h name hname path hpath => (hends h name hname path hpath).2
  have hread : (names ++ paths).Nodup ↔ HasNoPageInSight tree := by
    rw [← names.map_id, ← paths.map_id]
    exact nodup_map_append_map_iff Function.injective_id Function.injective_id hnames hpaths
      fun h name hname path hpath heq => (hends h name hname path hpath).1 (congrArg _ heq)
  refine ⟨hids, hnames, hwritten, fun hstart ht => ⟨_, ?_, ids_read_draw s t a tree hstart, ?_⟩⟩
  · rw [render, String.toList_ofList]
    exact Document.read?_text (isSound_draw hstart ht a tree)
  · rwa [ids_read_draw s t a tree hstart]

/-- A message that is one image. -/
theorem ids_differ_without_pages_of_image :
    let image : Item := .image false ⟨View.plain, "a", .aspectFit, none, none⟩
    let c : Card (Linear.Tableau .exact) :=
      ((Card.new {}).render .empty ⟨"m", 1⟩ ⟨1, some [image]⟩).1
    let s : SvgSettings := { embed := fun _ => none }
    ∃ tree, c.tree? = some tree ∧ ((draw s Theme.standard .light tree).ids s).Nodup ∧
      ∃ x, read? (render s Theme.standard .light tree).toList = some x ∧ x.ids.Nodup := by
  intro image c s
  have hc : c.Reachable := .render (.new {}) _ _ _
  obtain ⟨l, board, hrendered, -, -, hroot, -⟩ :=
    (Card.new {} : Card (Linear.Tableau .exact)).exists_renderPage ⟨"m", 1⟩ .empty 1 [image] rfl
  rw [Card.bodyOutline_image] at hroot
  have hl : c.live = some l := congrArg Card.live hrendered
  have htree : c.tree? = some l.tree := by rw [Card.tree?, hl, Option.map_some]
  have hslots : ∀ k ∈ l.root.nodes, ∀ spacing extent, k.slot ≠ .carousel spacing extent := by
    rw [hroot]
    simp [Card.rootNode, OutlineNode.nodes, outlineNodes]
  have hnone : HasNoPageInSight l.tree := by
    intro n hn hshown spacing scroll pages hcontent
    obtain ⟨k, hk, hshows⟩ := (exists_of_forall₂ (hc.isKept.isLaidOut hl).shows).1 n hn
    obtain ⟨extent, hslot, -⟩ := hshows.exists_carousel (hshows.hidden_eq ▸ hshown) hcontent
    exact absurd hslot (hslots k hk spacing extent)
  obtain ⟨-, -, hids, hread⟩ := ids_differ_without_pages hc htree s Theme.standard .light
  obtain ⟨x, hx, -, hxids⟩ := hread (by decide) isPlain_standard
  exact ⟨l.tree, htree, hids.mpr hnone, x, hx, hxids.mpr hnone⟩

end Svg
end MessageCard
