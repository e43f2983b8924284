import MessageCard.Proofs.Layout.Drawing
import MessageCard.Proofs.Svg.Previews
import MessageCard.Proofs.Svg.Tags

/-!
# References in a preview resolve

A clipped element refers to a definition of the document, and so does a tinted picture. The
definitions stand in the block of definitions, each under a name of its own. Every reference names
one of them, of the right kind: a picture and the pages of a carousel are clipped by their own
rectangle, and pictures are painted by the filter of their tint, which they share with those of the
same tint alone. No definition is without use.
-/
namespace MessageCard

/-- The place and the size of a rectangle as a document has them. -/
def Rect.written (r : Rect) : List (String × String) :=
  [("x", r.x.toPlain), ("y", r.y.toPlain), ("width", r.width.toPlain),
    ("height", r.height.toPlain)]

namespace Svg

/-- The value of an attribute that refers to what has a name. -/
def reference (name : String) : String := "url(#" ++ name ++ ")"

theorem reference_inj {name other : String} : reference name = reference other ↔ name = other := by
  rw [reference, reference, String.append_left_inj, String.append_right_inj]

/-! ## Documents as they are read -/

namespace Xml

mutual

/-- The tags of an element and of all inside it, in the order of the document, each with its
attributes. -/
def tags : Xml → List (String × List (String × String))
  | ⟨tag, attributes, _, children⟩ => (tag, attributes) :: tagsOf children

/-- The tags of elements with one parent. -/
def tagsOf : List Xml → List (String × List (String × String))
  | [] => []
  | x :: rest => x.tags ++ tagsOf rest

end

/-- The tags of pictures and those that refer to something. -/
def clipped (x : Xml) : List (String × List (String × String)) :=
  x.tags.filter fun t => t.1 = "image" || t.2.any fun a => a.1 = "clip-path" || a.1 = "filter"

/-- What stands in the block of definitions. -/
def definitions (x : Xml) : List Xml := (x.children.filter (·.tag = "defs")).flatMap (·.children)

/-- The definitions with a name. -/
def named (x : Xml) (name : String) : List Xml :=
  x.definitions.filter fun d => d.attributes.any fun a => a.1 = "id" ∧ a.2 = name

end Xml

/-- A definition under a name as it is read. -/
def Definition.xml (name : String) : Definition → Xml
  | .clip rect radius =>
    ⟨"clipPath", [("id", name)], "",
      [⟨"rect", rect.written ++ [("rx", radius.toPlain)], "", []⟩]⟩
  | .tint color =>
    ⟨"filter", [("id", name)], "", [⟨"feFlood", [("flood-color", color)], "", []⟩,
      ⟨"feComposite", [("in2", "SourceAlpha"), ("operator", "in")], "", []⟩]⟩

/-- A tag that is clipped as it should be, with names for the filters of colors. It has one
reference to a rectangle. Exactly one definition has the name that this one refers to, and it holds
the rectangle. If there is a tint, the tag has one reference to a filter as well, to that of the
color. -/
structure Xml.Resolves (x : Xml) (filterOf : String → String) (c : Clipping)
    (t : String × List (String × String)) : Prop where
  tag_eq : t.1 = c.tag
  place : c.tag = "image" → c.rect.written ⊆ t.2
  clip : ∃ name, t.2.filter (·.1 = "clip-path") = [("clip-path", reference name)] ∧
    x.named name = [c.definition.xml name]
  tint : t.2.filter (·.1 = "filter") =
    c.tint.toList.map fun color => ("filter", reference (filterOf color))
  filter : ∀ color ∈ c.tint,
    x.named (filterOf color) = [(Definition.tint color).xml (filterOf color)]

/-! ## Reading tags and definitions -/

/-- A tag as it is read. -/
def readTag (t : String × List Attribute) : String × List (String × String) :=
  (t.1, t.2.map (·.read))

mutual

theorem Element.tags_read : ∀ e : Element, e.read.tags = e.tags.map readTag
  | .leaf tag attributes => rfl
  | .text tag attributes written => rfl
  | .group tag attributes children => by
    rw [read, Xml.tags, Element.tagsOf_readAll children, Element.tags, List.map_cons]
    rfl

theorem Element.tagsOf_readAll : ∀ es : List Element,
    Xml.tagsOf (readAll es) = (tagsOf es).map readTag
  | [] => rfl
  | e :: rest => by
    rw [readAll, Xml.tagsOf, Element.tags_read e, Element.tagsOf_readAll rest, tagsOf,
      List.map_append]

end

/-- What is clipped in an element that is read. -/
theorem Element.clipped_read (e : Element) :
    e.read.clipped = (e.tags.filter isClipped).map readTag := by
  rw [Xml.clipped, tags_read, List.filter_map]
  congr 1
  refine List.filter_congr fun t _ => ?_
  simp only [Function.comp_apply, readTag, isClipped, List.any_map]
  rfl

theorem filter_readTag (t : String × List Attribute) (name : String) :
    (readTag t).2.filter (·.1 = name) = (t.2.filter (·.name = name)).map (·.read) := by
  rw [readTag, List.filter_map]
  rfl

namespace Attribute

theorem read_number (name : String) (value : Binary64) :
    (number name value).read = (name, value.toPlain) := by
  rw [number, read_word name (isPlain_toPlain value)]

theorem map_read_rectAttributes (r : Rect) : (rectAttributes r).map (·.read) = r.written := by
  simp [rectAttributes, Rect.written, read_number]

end Attribute

theorem Definition.read_titled {name : String} (h : IsPlain name.toList) (d : Definition) :
    (titled name d).read = d.xml name := by
  cases d with
  | clip rect radius =>
    rw [titled, Element.read, Element.readAll, Element.readAll, Element.read, List.map_append,
      Attribute.map_read_rectAttributes]
    simp [xml, Attribute.read_word _ h, Attribute.read_number]
  | tint color =>
    have hsource := Attribute.read_word "in2" (show IsPlain "SourceAlpha".toList by decide)
    have hoperator := Attribute.read_word "operator" (show IsPlain "in".toList by decide)
    simp [titled, Element.read, Element.readAll, xml, Attribute.read_word _ h, Attribute.read_text,
      hsource, hoperator]

theorem Definition.attributes_xml (name : String) (d : Definition) :
    (d.xml name).attributes = [("id", name)] := by
  cases d <;> rfl

/-- The names of definitions are written as they are. -/
theorem Definition.isPlain_of_mem_named {start name : String} {clips tints : Nat}
    {defs : List Definition} {d : Definition} (hstart : IsPlain start.toList)
    (h : (name, d) ∈ named start clips tints defs) : IsPlain name.toList := by
  obtain ⟨k, -, rfl⟩ | ⟨k, color, -, -, rfl⟩ := mem_named.mp h
  · exact isPlain_clipName hstart _
  · exact isPlain_tintName hstart _

/-- Of entries with different keys one only has a given key. -/
theorem filter_eq_singleton {α β : Type} [DecidableEq β] {key : α → β} {xs : List α} {x : α}
    (h : (xs.map key).Nodup) (hx : x ∈ xs) : xs.filter (key · = key x) = [x] := by
  induction xs with
  | nil => cases hx
  | cons y rest ih =>
    obtain ⟨hy, hrest⟩ := List.nodup_cons.mp h
    rcases List.mem_cons.mp hx with rfl | hx
    · rw [List.filter_cons_of_pos (by simp), List.filter_eq_nil_iff.mpr]
      intro z hz heq
      exact hy (of_decide_eq_true heq ▸ List.mem_map_of_mem hz)
    · rw [List.filter_cons_of_neg, ih hrest hx]
      intro heq
      exact hy (of_decide_eq_true heq ▸ List.mem_map_of_mem hx)

namespace Document

variable {d : Document} {s : SvgSettings}

/-- The definitions of a document, when none of its elements is a block of definitions. -/
theorem definitions_element (hstart : IsPlain s.classStart.toList)
    (h : ∀ e ∈ d.elements, e.read.tag ≠ "defs") :
    (d.element s).read.definitions = (d.named s).map fun e => e.2.xml e.1 := by
  have hread : (d.named s).map (fun e => (Definition.titled e.1 e.2).read) =
      (d.named s).map fun e => e.2.xml e.1 :=
    List.map_congr_left fun e he =>
      Definition.read_titled (Definition.isPlain_of_mem_named hstart he) e.2
  have helements : (d.elements.map (·.read)).filter (·.tag = "defs") = [] := by
    refine List.filter_eq_nil_iff.mpr fun x hx => ?_
    obtain ⟨e, he, rfl⟩ := List.mem_map.mp hx
    simpa using h e he
  have hstyle : (Element.text "style" [] (d.styleText s)).read.tag = "style" := rfl
  rw [Xml.definitions, element, Element.read, Element.readAll_eq_map, List.map_cons,
    List.map_append, List.filter_cons_of_neg (by simp [hstyle]), List.filter_append, helements,
    definitionElements, Definition.elements_eq_map_named, ← hread]
  simp only [List.map_eq_nil_iff, List.append_nil]
  rw [← named]
  split
  · next hnone => simp [hnone]
  · simp [Element.read, Element.readAll_eq_map]

/-- Exactly one definition of a document has the name of one. -/
theorem named_element (hstart : IsPlain s.classStart.toList)
    (h : ∀ e ∈ d.elements, e.read.tag ≠ "defs") {name : String} {definition : Definition}
    (hmem : (name, definition) ∈ d.named s) :
    (d.element s).read.named name = [definition.xml name] := by
  have hnames : ((d.named s).map (·.1)).Nodup := Definition.nodup_names ..
  have hone : (d.named s).filter (·.1 = name) = [(name, definition)] :=
    filter_eq_singleton hnames hmem
  rw [Xml.named, definitions_element hstart h, List.filter_map]
  have hsame : (d.named s).filter ((fun x : Xml => x.attributes.any fun a =>
      a.1 = "id" ∧ a.2 = name) ∘ fun e => e.2.xml e.1) = (d.named s).filter (·.1 = name) :=
    List.filter_congr fun e _ => by simp [Definition.attributes_xml]
  rw [hsame, hone, List.map_singleton]

end Document

/-- What is drawn for a node is a group, or an outline. -/
theorem tag_drawNode (i : Ink) (n : LayoutNode) (defs : List Definition) :
    ∀ e ∈ (drawNode i n defs).1, e.read.tag ≠ "defs" := by
  have houtline : ∀ e ∈ i.outline n, e.read.tag ≠ "defs" := by
    rw [Ink.outline]
    split <;> simp [Ink.rect, Element.read]
  cases hhidden : n.hidden with
  | true =>
    rw [drawNode_of_hidden i hhidden]
    exact houtline
  | false =>
    rw [drawNode_of_shown i hhidden]
    exact List.forall_mem_append.mpr
      ⟨houtline, List.forall_mem_singleton.mpr (by simp [Element.read])⟩

namespace Ink

variable {i : Ink} (hstart : IsPlain i.settings.classStart.toList)
include hstart

theorem read_clipPath (number : Nat) : (i.clipPath number).read =
    ("clip-path", reference (Definition.clipName i.settings.classStart number)) := by
  rw [clipPath, reference, Attribute.read_word]
  rw [String.toList_append, String.toList_append]
  exact (IsPlain.append (by decide) (Definition.isPlain_clipName hstart number)).append (by decide)

theorem read_filter (number : Nat) : (i.filter number).read =
    ("filter", reference (Definition.tintName i.settings.classStart number)) := by
  rw [filter, reference, Attribute.read_word]
  rw [String.toList_append, String.toList_append]
  exact (IsPlain.append (by decide) (Definition.isPlain_tintName hstart number)).append (by decide)

end Ink

/-! ## Drawings whose references resolve -/

namespace Document

/-- The name of the filter of a color. -/
def filterName (d : Document) (s : SvgSettings) (color : String) : String :=
  Definition.tintName s.classStart ((Definition.tints d.definitions).idxOf color + 1)

variable {d : Document}

/-- A filter has the name of its color. -/
theorem filterName_eq (hnodup : (Definition.tints d.definitions).Nodup) (s : SvgSettings) {k : Nat}
    {color : String} (hk : (Definition.tints d.definitions)[k]? = some color) :
    d.filterName s color = Definition.tintName s.classStart (k + 1) := by
  obtain ⟨hlt, rfl⟩ := List.getElem?_eq_some_iff.mp hk
  rw [filterName, hnodup.idxOf_getElem]

/-- Different colors have filters of different names. -/
theorem filterName_inj {s : SvgSettings} {color other : String}
    (hcolor : color ∈ Definition.tints d.definitions) :
    d.filterName s color = d.filterName s other ↔ color = other := by
  rw [filterName, filterName, Definition.tintName_inj, Nat.add_right_cancel_iff,
    List.idxOf_inj hcolor]

end Document

section

variable {i : Ink} {d : Document} {names : List Attribute} {cs : List Clipping}
  (hstart : IsPlain i.settings.classStart.toList)
  (hnodup : (Definition.tints d.definitions).Nodup)
  (h : i.Refers [] (d.element i.settings).tags d.definitions names cs)
include hstart hnodup h

/-- What is clipped refers to definitions of the document. -/
theorem Ink.Refers.resolves (hdefs : ∀ e ∈ d.elements, e.read.tag ≠ "defs") :
    List.Forall₂ ((d.element i.settings).read.Resolves (d.filterName i.settings)) cs
      (d.element i.settings).read.clipped := by
  have hclips : d.definitions.filter Definition.isClip = cs.map (·.definition) := h.filter_isClip
  obtain ⟨hlength, hzip⟩ := List.forall₂_iff_zip.mp h.clipped
  rw [Element.clipped_read, ← List.zipIdx_map_fst 1 cs, List.forall₂_map_left_iff,
    List.forall₂_map_right_iff]
  refine List.forall₂_iff_zip.mpr ⟨hlength, fun {c t} hmem => ?_⟩
  obtain ⟨c, number⟩ := c
  have ht := hzip hmem
  have hname : (Definition.clipName i.settings.classStart number, c.definition) ∈
      d.named i.settings := by
    obtain ⟨hle, hget⟩ := List.mk_mem_zipIdx_iff_le_and_getElem?_sub.mp (List.of_mem_zip hmem).1
    refine Definition.mem_named.mpr (.inl ⟨number - 1, ?_, by congr 1; omega⟩)
    rw [hclips, List.getElem?_map, hget, Option.map_some]
  refine ⟨ht.tag_eq, fun htag => ?_, ⟨_, ?_, Document.named_element hstart hdefs hname⟩, ?_,
    fun color hcolor => ?_⟩
  · rw [← Attribute.map_read_rectAttributes]
    exact List.map_subset _ (ht.place htag)
  · rw [filter_readTag, ht.clip, List.map_singleton, Ink.read_clipPath hstart]
  · rw [filter_readTag]
    refine (map_eq_map_of_forall₂ ht.tint fun {color a} hk => ?_).symm
    obtain ⟨k, hk, rfl⟩ := hk
    rw [Document.filterName_eq hnodup _ hk, Ink.read_filter hstart]
  · obtain ⟨a, -, k, hk, -⟩ := (exists_of_forall₂ ht.tint).1 color (Option.mem_toList.mpr hcolor)
    rw [Document.filterName_eq hnodup _ hk]
    refine Document.named_element hstart hdefs (Definition.mem_named.mpr (.inr ?_))
    exact ⟨k, color, hk, rfl, by rw [Nat.zero_add]⟩

/-- When every tint of a filter is one of something clipped, no definition is without use. -/
theorem Ink.Refers.exists_reference
    (htints : ∀ color ∈ Definition.tints d.definitions, ∃ c ∈ cs, c.tint = some color)
    {name : String} {definition : Definition} (hmem : (name, definition) ∈ d.named i.settings) :
    ∃ t ∈ (d.element i.settings).read.clipped,
      ("clip-path", reference name) ∈ t.2 ∨ ("filter", reference name) ∈ t.2 := by
  have hclips : d.definitions.filter Definition.isClip = cs.map (·.definition) := h.filter_isClip
  have hread : ∀ t ∈ (d.element i.settings).tags.filter isClipped,
      readTag t ∈ (d.element i.settings).read.clipped := by
    intro t ht
    rw [Element.clipped_read]
    exact List.mem_map_of_mem ht
  have htags := (exists_of_forall₂ h.clipped).1
  obtain ⟨k, hk, rfl⟩ | ⟨k, color, hk, rfl, rfl⟩ := Definition.mem_named.mp hmem
  · rw [hclips, List.getElem?_map, Option.map_eq_some_iff] at hk
    obtain ⟨c, hc, -⟩ := hk
    obtain ⟨t, ht, hclip⟩ := htags (c, k + 1)
      (List.mk_mem_zipIdx_iff_le_and_getElem?_sub.mpr ⟨Nat.le_add_left .., hc⟩)
    have hattribute : i.clipPath (k + 1) ∈ t.2 :=
      List.mem_of_mem_filter (hclip.clip ▸ List.mem_singleton_self _)
    refine ⟨readTag t, hread t ht, .inl ?_⟩
    rw [Nat.zero_add, ← Ink.read_clipPath hstart]
    exact List.mem_map_of_mem hattribute
  · obtain ⟨c, hc, htint⟩ := htints color (List.mem_of_getElem? hk)
    obtain ⟨⟨_, number⟩, hnumber, rfl⟩ : ∃ e ∈ cs.zipIdx 1, e.1 = c := by
      rwa [← List.mem_map, List.zipIdx_map_fst]
    obtain ⟨t, ht, hclip⟩ := htags _ hnumber
    obtain ⟨a, ha, j, hj, rfl⟩ :=
      (exists_of_forall₂ hclip.tint).1 color (Option.mem_toList.mpr htint)
    have hsame := (Document.filterName_eq hnodup i.settings hk).symm.trans
      (Document.filterName_eq hnodup i.settings hj)
    refine ⟨readTag t, hread t ht, .inr ?_⟩
    rw [Nat.zero_add, hsame, ← Ink.read_filter hstart]
    exact List.mem_map_of_mem (List.mem_of_mem_filter ha)

end

theorem nodup_eraseDups (colors : List String) : colors.eraseDups.Nodup := by
  induction colors using List.reverseRecOn with
  | nil => exact List.nodup_nil
  | append_singleton rest color ih =>
    rw [List.eraseDups_append]
    by_cases hold : color ∈ rest
    · simpa [List.removeAll, hold] using ih
    · have hlast : ([color].removeAll rest).eraseDups = [color] := by
        simp [List.removeAll, hold, List.eraseDups_cons]
      rw [hlast]
      exact ih.append (List.nodup_singleton color) (by simpa using hold)

/-- The tint filters of a drawing are those of the colors of its pictures, one for each. -/
theorem tints_draw (s : SvgSettings) (t : Theme) (a : Appearance) (tree : LayoutTree) :
    Definition.tints (draw s t a tree).definitions =
      ((metNode tree.root).filterMap tint?).eraseDups := by
  let i : Ink := ⟨s, t.color "text-default" a, t.color "downloading-background" a⟩
  have hempty : Definition.tints [] = ([] : List String).eraseDups := rfl
  exact i.tints_drawNode tree.root hempty

/-- The references in a preview resolve, whatever the layout is. What is clipped in the document are
the background pictures, the pictures and the carousels of the nodes that the drawing comes to, in
this order. Each has a reference to a rectangle, which names exactly one definition, that of its own
rectangle, and the tinted ones have one to a filter, which names exactly one definition, that of
their color: two of them have the same one if and only if they have the same tint. Every definition
has a name of its own, and something refers to it. -/
theorem references_resolve (s : SvgSettings) (t : Theme) (a : Appearance) (tree : LayoutTree)
    (hstart : IsPlain s.classStart.toList) :
    let x := ((draw s t a tree).element s).read
    let nodes := metNode tree.root
    (t.IsPlain → read? (render s t a tree).toList = some x) ∧
    (∃ filterOf : String → String,
      List.Forall₂ (x.Resolves filterOf) (nodes.flatMap clippings) x.clipped ∧
      ∀ color ∈ nodes.filterMap tint?, ∀ other ∈ nodes.filterMap tint?,
        reference (filterOf color) = reference (filterOf other) ↔ color = other) ∧
    ∀ d ∈ x.definitions, ∃ name, d.attributes = [("id", name)] ∧ x.named name = [d] ∧
      ∃ u ∈ x.clipped, ("clip-path", reference name) ∈ u.2 ∨ ("filter", reference name) ∈ u.2 := by
  intro x nodes
  let i : Ink := ⟨s, t.color "text-default" a, t.color "downloading-background" a⟩
  have hi : IsPlain i.settings.classStart.toList := hstart
  have hrefers := refers_draw s t a tree
  have htints := tints_draw s t a tree
  have hnodup : (Definition.tints (draw s t a tree).definitions).Nodup :=
    htints ▸ nodup_eraseDups _
  have hdefs := tag_drawNode i tree.root []
  refine ⟨fun ht => ?_, ⟨(draw s t a tree).filterName s,
    Ink.Refers.resolves (i := i) hi hnodup hrefers hdefs, fun color hcolor other _ => ?_⟩,
    fun d hd => ?_⟩
  · rw [render, String.toList_ofList]
    exact Document.read?_text (isSound_draw hstart ht a tree)
  · rw [reference_inj, Document.filterName_inj]
    rwa [htints, List.mem_eraseDups]
  · have hd' : d ∈ (((draw s t a tree).named s).map fun e => e.2.xml e.1) :=
      Document.definitions_element (d := draw s t a tree) hstart hdefs ▸ hd
    obtain ⟨⟨name, definition⟩, hmem, rfl⟩ := List.mem_map.mp hd'
    refine ⟨name, Definition.attributes_xml name definition,
      Document.named_element hstart hdefs hmem, ?_⟩
    refine Ink.Refers.exists_reference (i := i) hi hnodup hrefers (fun color hcolor => ?_) hmem
    rw [htints, List.mem_eraseDups] at hcolor
    obtain ⟨n, hn, htint⟩ := List.mem_filterMap.mp hcolor
    have hclippings : color ∈ (clippings n).filterMap (·.tint) := by
      rw [filterMap_tint_clippings, htint]
      exact List.mem_singleton_self _
    obtain ⟨c, hc, hcolor⟩ := List.mem_filterMap.mp hclippings
    exact ⟨c, List.mem_flatMap.mpr ⟨n, hn, hc⟩, hcolor⟩

/-- A layout with pages behind each other in a carousel. -/
def paged (pages : List (PageOf LayoutTree)) : LayoutTree :=
  let frame : Rect := ⟨0, 0, 100, 40⟩
  let plain : NodeStyle := ⟨none, none, 0, none, 0⟩
  ⟨100, 40, ⟨0, "body", .root, frame, frame, plain, none, false,
    [⟨1, "body.items[0]", .carousel 0 0 pages, frame, frame, plain, none, false, []⟩]⟩⟩

/-- A carousel with a page, a page out of sight and a page at the edge, the pictures of the first
and of the last of one tint. -/
theorem references_resolve_of_pages :
    let page := captioned "body.items[0]" "text"
    let frame : Rect := ⟨0, 0, 100, 40⟩
    ∃ x filterOf u v w, read? (render { embed := fun _ => none } Theme.standard .light
        (paged [⟨0, some (page "a" "red")⟩, ⟨200, some (page "b" "blue")⟩,
          ⟨100, some (page "c" "red")⟩])).toList = some x ∧
      x.clipped = [u, v, w] ∧ x.Resolves filterOf ⟨"g", frame, 0, none⟩ u ∧
      x.Resolves filterOf ⟨"image", frame, 0, some "red"⟩ v ∧
      x.Resolves filterOf ⟨"image", frame, 0, some "red"⟩ w := by
  intro page frame
  obtain ⟨hread, ⟨filterOf, hclipped, -⟩, -⟩ := references_resolve { embed := fun _ => none }
    Theme.standard .light (paged [⟨0, some (page "a" "red")⟩, ⟨200, some (page "b" "blue")⟩,
      ⟨100, some (page "c" "red")⟩]) (by decide)
  have hclippings : (metNode (paged [⟨0, some (page "a" "red")⟩, ⟨200, some (page "b" "blue")⟩,
      ⟨100, some (page "c" "red")⟩]).root).flatMap clippings =
      [⟨"g", frame, 0, none⟩, ⟨"image", frame, 0, some "red"⟩,
        ⟨"image", frame, 0, some "red"⟩] := by decide +kernel
  rw [hclippings] at hclipped
  generalize hx : Xml.clipped _ = us at hclipped
  obtain _ | ⟨hu, hrest⟩ := hclipped
  obtain _ | ⟨hv, hrest⟩ := hrest
  obtain _ | ⟨hw, hrest⟩ := hrest
  cases hrest
  exact ⟨_, filterOf, _, _, _, hread isPlain_standard, hx, hu, hv, hw⟩

end Svg
end MessageCard
