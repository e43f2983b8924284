import MessageCard.Proofs.Svg.Drawing

/-!
# The strings of a document

Strings of a layout stand in a few attributes of a document's elements, and in its texts. Read in
the order of the document they are the strings of the nodes that the drawing comes to, each as the
layout has it. The colors of tint filters stand before all others, every color once.
-/
namespace MessageCard.Svg

/-- A string of a layout as a document has it: in an attribute, or as a text. -/
inductive Inscription where
  | attribute (tag name value : String)
  | text (s : String)
  deriving DecidableEq

/-- Whether an attribute holds a string of a layout. -/
def isInscribed (tag name : String) : Bool :=
  decide ((tag, name) ∈ [("g", "id"), ("image", "href"), ("rect", "fill"), ("rect", "stroke"),
    ("circle", "stroke"), ("text", "fill"), ("feFlood", "flood-color")])

namespace Xml

/-- The strings in the attributes of an element. -/
def inscribed (tag : String) (attributes : List (String × String)) : List Inscription :=
  attributes.filterMap fun a =>
    if isInscribed tag a.1 then some (.attribute tag a.1 a.2) else none

mutual

/-- The strings of an element and of all inside it. -/
def inscriptions : Xml → List Inscription
  | ⟨tag, attributes, text, children⟩ =>
    inscribed tag attributes ++ ((if tag = "text" then [.text text] else []) ++
      inscriptionsOf children)

/-- The strings of elements with one parent. -/
def inscriptionsOf : List Xml → List Inscription
  | [] => []
  | x :: rest => x.inscriptions ++ inscriptionsOf rest

end

theorem inscriptionsOf_eq_flatMap (xs : List Xml) :
    inscriptionsOf xs = xs.flatMap inscriptions := by
  induction xs with
  | nil => rfl
  | cons x rest ih => rw [inscriptionsOf, ih, List.flatMap_cons]

end Xml

/-! ## The strings of a layout -/

mutual

/-- The nodes that a drawing comes to, every node before those of its pages and before its children.
It comes to a hidden node, but not further. -/
def metNode : LayoutNode → List LayoutNode
  | ⟨id, path, content, frame, inner, style, action, hidden, children⟩ =>
    ⟨id, path, content, frame, inner, style, action, hidden, children⟩ ::
      (if hidden then [] else metContent inner content ++ metNodes children)

/-- The nodes on the pages that are in sight. -/
def metContent (inner : Rect) : ContentOf (LayoutOf LayoutNode) → List LayoutNode
  | .carousel _ scroll pages => metPages inner scroll pages
  | _ => []

/-- The nodes on pages of one carousel, as far as they are in sight. -/
def metPages (inner : Rect) (scroll : Binary64) :
    List (PageOf (LayoutOf LayoutNode)) → List LayoutNode
  | [] => []
  | ⟨_, none⟩ :: rest => metPages inner scroll rest
  | ⟨offset, some ⟨width, _, root⟩⟩ :: rest =>
    (if IsInSight inner scroll offset width then metNode root else []) ++
      metPages inner scroll rest

/-- The nodes of trees with one parent. -/
def metNodes : List LayoutNode → List LayoutNode
  | [] => []
  | n :: rest => metNode n ++ metNodes rest

end

/-- The strings of a border. -/
def borderStrings (s : NodeStyle) : List Inscription :=
  if 0 < s.borderWidth then s.borderColor.toList.map (.attribute "rect" "stroke") else []

/-- The strings of a node's look. -/
def lookStrings (s : NodeStyle) : List Inscription :=
  s.backgroundImage.toList.map (.attribute "image" "href") ++
    (if s.backgroundColor = none ∧ borderStrings s = [] then []
      else .attribute "rect" "fill" (s.backgroundColor.getD "none") :: borderStrings s)

namespace Ink

/-- The strings of an outline, which are always the same. -/
def outlineStrings (i : Ink) : List Inscription :=
  if i.settings.outlines then
    [.attribute "rect" "fill" "none", .attribute "rect" "stroke" "#ff00ff"]
  else []

/-- Where an image comes from. -/
def source (i : Ink) (image : ImageContent) : String :=
  ((image.bitmap.bind i.settings.embed).map ("data:image/png;base64," ++ ·)).getD image.url

/-- The strings of what a node shows, without those on pages. -/
def contentStrings (i : Ink) {τ : Type} : ContentOf τ → List Inscription
  | .text t => t.lines.flatMap fun line =>
    [.attribute "text" "fill" (t.color.getD i.text), .text (.ofList line)]
  | .image image =>
    if image.url = StandIn.spinnerUrl then
      [.attribute "circle" "stroke" (image.tint.getD i.text)]
    else (if image.bitmap.isSome then [] else [.attribute "rect" "fill" i.placeholder]) ++
      [.attribute "image" "href" (i.source image)]
  | _ => []

/-- The strings of a node, without those of the nodes below it. -/
def strings (i : Ink) (n : LayoutNode) : List Inscription :=
  i.outlineStrings ++ if n.hidden then []
    else .attribute "g" "id" n.path :: (lookStrings n.style ++ i.contentStrings n.content)

end Ink

/-- The color in which an image is tinted. -/
def tintOf? {τ : Type} : ContentOf τ → Option String
  | .image image => if image.url = StandIn.spinnerUrl then none else image.tint
  | _ => none

/-- The color in which a node's image is tinted, if it is drawn. -/
def tint? (n : LayoutNode) : Option String := if n.hidden then none else tintOf? n.content

/-- The strings of a layout, in the order of its drawing. -/
def Ink.inscriptions (i : Ink) (tree : LayoutTree) : List Inscription :=
  ((metNode tree.root).filterMap tint?).eraseDups.map (.attribute "feFlood" "flood-color") ++
    (metNode tree.root).flatMap i.strings

/-! ## The strings of elements -/

namespace Attribute

theorem read_text (name value : String) : (text name value).read = (name, value) := by
  rw [text, read_of_eq_escape rfl, String.ofList_toList]

theorem read_word (name : String) {value : String} (h : IsPlain value.toList) :
    (word name value).read = (name, value) := by
  rw [word, read_of_eq_escape h.escape_eq.symm, String.ofList_toList]

/-- The string in an attribute. -/
def inscription? (tag : String) (a : Attribute) : Option Inscription :=
  if isInscribed tag a.name then some (.attribute tag a.name a.read.2) else none

theorem inscribed_map_read (tag : String) (attributes : List Attribute) :
    Xml.inscribed tag (attributes.map (·.read)) = attributes.filterMap (inscription? tag) := by
  rw [Xml.inscribed, List.filterMap_map]
  rfl

end Attribute

namespace Element

theorem inscriptions_leaf {tag : String} (h : tag ≠ "text") (attributes : List Attribute) :
    (leaf tag attributes).read.inscriptions =
      attributes.filterMap (Attribute.inscription? tag) := by
  rw [read, Xml.inscriptions, Attribute.inscribed_map_read, if_neg h, Xml.inscriptionsOf]
  simp

theorem inscriptions_text (attributes : List Attribute) (content : List Char) :
    (text "text" attributes (escape content)).read.inscriptions =
      attributes.filterMap (Attribute.inscription? "text") ++ [.text (.ofList content)] := by
  rw [read, Xml.inscriptions, Attribute.inscribed_map_read, if_pos rfl, decode?_escape,
    Xml.inscriptionsOf]
  rfl

theorem inscriptions_group {tag : String} (h : tag ≠ "text") (attributes : List Attribute)
    (es : List Element) :
    (group tag attributes es).read.inscriptions =
      attributes.filterMap (Attribute.inscription? tag) ++ es.flatMap (·.read.inscriptions) := by
  rw [read, Xml.inscriptions, Attribute.inscribed_map_read, Xml.inscriptionsOf_eq_flatMap,
    readAll_eq_map, List.flatMap_map, if_neg h]
  rfl

end Element

namespace Ink

variable (i : Ink)

theorem inscriptions_rect (r : Rect) (radius : Binary64) (kind : String) (look : List Attribute) :
    (i.rect r radius kind look).read.inscriptions =
      look.filterMap (Attribute.inscription? "rect") := by
  have hradius : (if 0 < radius then [Attribute.number "rx" radius] else []).filterMap
      (Attribute.inscription? "rect") = [] := by
    split <;> simp [Attribute.inscription?, isInscribed]
  rw [rect, Element.inscriptions_leaf (by decide), List.filterMap_append, List.filterMap_append,
    hradius]
  simp [Attribute.inscription?, isInscribed, rectAttributes]

theorem inscriptions_image (r : Rect) (source aspect : String) (kinds : List String)
    {look : List Attribute} (hlook : ∀ a ∈ look, isInscribed "image" a.name = false) :
    (i.image r source aspect kinds look).read.inscriptions =
      [.attribute "image" "href" source] := by
  have hnone : look.filterMap (Attribute.inscription? "image") = [] :=
    List.filterMap_eq_nil_iff.mpr fun a ha => by simp [Attribute.inscription?, hlook a ha]
  rw [image, Element.inscriptions_leaf (by decide), List.filterMap_append, hnone]
  simp [Attribute.inscription?, isInscribed, rectAttributes, Attribute.read_text]

/-- The strings of elements, one after the other. -/
theorem flatMap_outline (n : LayoutNode) :
    (i.outline n).flatMap (·.read.inscriptions) = i.outlineStrings := by
  have hfill := Attribute.read_word "fill" (show IsPlain "none".toList by decide)
  have hstroke := Attribute.read_word "stroke" (show IsPlain "#ff00ff".toList by decide)
  rw [outline, outlineStrings]
  split
  · rw [List.flatMap_singleton, inscriptions_rect]
    simp [Attribute.inscription?, isInscribed, hfill, hstroke]
  · rfl

theorem filterMap_stroke (s : NodeStyle) :
    (stroke s).filterMap (Attribute.inscription? "rect") = borderStrings s := by
  rw [stroke, borderStrings]
  cases s.borderColor with
  | none => simp
  | some color =>
    by_cases hwidth : 0 < s.borderWidth
    · simp [hwidth, Attribute.inscription?, isInscribed, Attribute.read_text]
    · simp [hwidth]

theorem stroke_eq_nil_iff (s : NodeStyle) : stroke s = [] ↔ borderStrings s = [] := by
  rw [stroke, borderStrings]
  cases s.borderColor with
  | none => simp
  | some color => by_cases hwidth : 0 < s.borderWidth <;> simp [hwidth]

theorem flatMap_backdrop (n : LayoutNode) :
    (i.backdrop n).flatMap (·.read.inscriptions) =
      if n.style.backgroundColor = none ∧ borderStrings n.style = [] then []
      else .attribute "rect" "fill" (n.style.backgroundColor.getD "none") ::
        borderStrings n.style := by
  have hnone := Attribute.read_word "fill" (show IsPlain "none".toList by decide)
  rw [backdrop]
  simp only [stroke_eq_nil_iff]
  split
  · rfl
  · rw [List.flatMap_singleton, inscriptions_rect, List.filterMap_cons, filterMap_stroke]
    cases n.style.backgroundColor with
    | none => simp [Attribute.inscription?, isInscribed, hnone]
    | some color => simp [Attribute.inscription?, isInscribed, Attribute.read_text]

theorem flatMap_background (n : LayoutNode) (defs : List Definition) :
    (i.background n defs).1.flatMap (·.read.inscriptions) = lookStrings n.style := by
  rw [background, lookStrings, ← i.flatMap_backdrop]
  cases n.style.backgroundImage with
  | none => simp
  | some url =>
    simp only [List.flatMap_cons]
    rw [inscriptions_image i _ _ _ _ (by simp [isInscribed])]
    rfl

theorem filterMap_lineAttributes (inner : Rect) (t : TextContent) (index : Nat) :
    (i.lineAttributes inner t index).filterMap (Attribute.inscription? "text") =
      [.attribute "text" "fill" (t.color.getD i.text)] := by
  have hweight : (if t.weight = .bold then [Attribute.word "font-weight" "bold"] else []).filterMap
      (Attribute.inscription? "text") = [] := by
    split <;> simp [Attribute.inscription?, isInscribed]
  rw [lineAttributes, List.filterMap_append, List.filterMap_append, hweight]
  simp [Attribute.inscription?, isInscribed, Attribute.read_text]

theorem flatMap_textLines (inner : Rect) (t : TextContent) :
    (i.textLines inner t).flatMap (·.read.inscriptions) = t.lines.flatMap fun line =>
      [.attribute "text" "fill" (t.color.getD i.text), .text (.ofList line)] := by
  have hline : ∀ line : List Char × Nat,
      (Element.text "text" (i.lineAttributes inner t line.2) (escape line.1)).read.inscriptions =
        [.attribute "text" "fill" (t.color.getD i.text), .text (.ofList line.1)] := by
    intro line
    rw [Element.inscriptions_text, filterMap_lineAttributes]
    rfl
  rw [textLines_eq, List.flatMap_map, List.flatMap_congr fun line _ => hline line]
  rw [← List.flatMap_map Prod.fst (fun line : List Char =>
    [Inscription.attribute "text" "fill" (t.color.getD i.text), .text (.ofList line)]),
    List.zipIdx_map_fst]

theorem inscriptions_spinner (inner : Rect) (color : String) :
    (i.spinner inner color).read.inscriptions = [.attribute "circle" "stroke" color] := by
  rw [spinner, Element.inscriptions_leaf (by decide)]
  simp [Attribute.inscription?, isInscribed, Attribute.read_text]

theorem flatMap_picture (inner : Rect) (radius : Binary64) (image : ImageContent)
    (defs : List Definition) :
    (i.picture inner radius image defs).1.flatMap (·.read.inscriptions) =
      i.contentStrings (.image image : ContentOf LayoutTree) := by
  rw [picture, contentStrings]
  split
  · rw [List.flatMap_singleton, inscriptions_spinner]
  · have hplaceholder : (if image.bitmap.isSome then []
        else [i.rect inner radius "image-placeholder" [.text "fill" i.placeholder]]).flatMap
          (·.read.inscriptions) =
        if image.bitmap.isSome then [] else [.attribute "rect" "fill" i.placeholder] := by
      split
      · rfl
      · rw [List.flatMap_singleton, inscriptions_rect]
        simp [Attribute.inscription?, isInscribed, Attribute.read_text]
    rw [List.flatMap_append, hplaceholder, List.flatMap_singleton, inscriptions_image]
    · rfl
    · cases image.tint <;> simp [isInscribed]

theorem filterMap_groupAttributes (n : LayoutNode) :
    (i.groupAttributes n).filterMap (Attribute.inscription? "g") =
      [.attribute "g" "id" n.path] := by
  simp [groupAttributes, Attribute.inscription?, isInscribed, Attribute.read_text]

end Ink

/-! ## The strings of a drawing -/

section

variable (i : Ink)

mutual

/-- What is drawn for a node shows the strings of the nodes that the drawing comes to. -/
theorem flatMap_drawNode : ∀ (n : LayoutNode) (defs : List Definition),
    (drawNode i n defs).1.flatMap (·.read.inscriptions) = (metNode n).flatMap i.strings
  | ⟨id, path, content, frame, inner, style, action, hidden, children⟩, defs => by
    cases hidden with
    | true =>
      rw [drawNode_of_hidden i rfl, metNode, if_pos rfl, List.flatMap_singleton, Ink.strings,
        if_pos rfl, List.append_nil]
      exact i.flatMap_outline _
    | false =>
      rw [drawNode_of_shown i rfl, metNode, if_neg Bool.false_ne_true, List.flatMap_cons,
        Ink.strings, if_neg Bool.false_ne_true]
      simp only [List.flatMap_append, List.flatMap_singleton]
      rw [i.flatMap_outline, Element.inscriptions_group (by decide),
        i.filterMap_groupAttributes, List.flatMap_append, List.flatMap_append,
        i.flatMap_background, flatMap_drawContent inner style.radius content,
        flatMap_drawNodes children]
      simp

theorem flatMap_drawContent (inner : Rect) (radius : Binary64) :
    ∀ (content : ContentOf (LayoutOf LayoutNode)) (defs : List Definition),
      (drawContent i inner radius content defs).1.flatMap (·.read.inscriptions) =
        i.contentStrings content ++ (metContent inner content).flatMap i.strings
  | .root, defs => by simp [drawContent, Ink.contentStrings, metContent]
  | .box _, defs => by simp [drawContent, Ink.contentStrings, metContent]
  | .text t, defs => by
    rw [drawContent, i.flatMap_textLines, Ink.contentStrings, metContent]
    · simp
    · simp
  | .image image, defs => by
    rw [drawContent, i.flatMap_picture, metContent]
    · simp [Ink.contentStrings]
    · simp
  | .carousel spacing scroll pages, defs => by
    rw [drawContent_carousel, List.flatMap_singleton, Element.inscriptions_group (by decide),
      flatMap_drawPages inner scroll pages, metContent]
    simp [Attribute.inscription?, isInscribed, Ink.contentStrings]

theorem flatMap_drawPages (inner : Rect) (scroll : Binary64) :
    ∀ (pages : List (PageOf (LayoutOf LayoutNode))) (defs : List Definition),
      (drawPages i inner scroll pages defs).1.flatMap (·.read.inscriptions) =
        (metPages inner scroll pages).flatMap i.strings
  | [], defs => by simp [drawPages, metPages]
  | ⟨offset, none⟩ :: rest, defs => by
    rw [drawPages_of_none, metPages]
    exact flatMap_drawPages inner scroll rest defs
  | ⟨offset, some ⟨width, height, root⟩⟩ :: rest, defs => by
    rw [metPages]
    by_cases hsight : IsInSight inner scroll offset width
    · rw [drawPages_of_inSight i ⟨width, height, root⟩ hsight, if_pos hsight]
      simp only [List.flatMap_cons, List.flatMap_append]
      rw [Element.inscriptions_group (by decide), flatMap_drawNode root,
        flatMap_drawPages inner scroll rest]
      simp [Attribute.inscription?, isInscribed, Ink.translate]
    · rw [drawPages_of_not_inSight i ⟨width, height, root⟩ hsight, if_neg hsight]
      exact flatMap_drawPages inner scroll rest defs

theorem flatMap_drawNodes : ∀ (ns : List LayoutNode) (defs : List Definition),
    (drawNodes i ns defs).1.flatMap (·.read.inscriptions) = (metNodes ns).flatMap i.strings
  | [], defs => by simp [drawNodes, metNodes]
  | n :: rest, defs => by
    rw [drawNodes_cons, metNodes, List.flatMap_append, List.flatMap_append, flatMap_drawNode n,
      flatMap_drawNodes rest]

end

end

/-! ## Tint filters -/

namespace Definition

theorem tints_append (defs others : List Definition) :
    tints (defs ++ others) = tints defs ++ tints others := List.filterMap_append

theorem tints_addClip (defs : List Definition) (rect : Rect) (radius : Binary64) :
    tints (addClip defs rect radius).2 = tints defs := by
  rw [addClip, tints_append]
  simp [tints]

variable {defs : List Definition} {colors : List String}

/-- A new color has a filter of its own, behind the others. -/
theorem tints_addTint (h : tints defs = colors.eraseDups) (color : String) :
    tints (addTint defs color).2 = (colors ++ [color]).eraseDups := by
  rw [addTint, List.eraseDups_append, ← h]
  cases hfind : (tints defs).idxOf? color with
  | none =>
    have hnew : color ∉ colors := by
      rw [List.idxOf?_eq_none_iff, h, List.mem_eraseDups] at hfind
      exact hfind
    simp [tints, List.removeAll, hnew, List.eraseDups_cons]
  | some index =>
    have hold : color ∈ colors := by
      by_contra hnew
      rw [← List.mem_eraseDups, ← h, ← List.idxOf?_eq_none_iff, hfind] at hnew
      cases hnew
    simp [List.removeAll, hold]

end Definition

namespace Ink

variable (i : Ink)

theorem tints_background (n : LayoutNode) (defs : List Definition) :
    Definition.tints (i.background n defs).2 = Definition.tints defs := by
  rw [background]
  split
  · rfl
  · exact Definition.tints_addClip defs _ _

theorem tints_picture (inner : Rect) (radius : Binary64) (image : ImageContent)
    {defs : List Definition} {colors : List String}
    (h : Definition.tints defs = colors.eraseDups) :
    Definition.tints (i.picture inner radius image defs).2 =
      (colors ++ (tintOf? (.image image : ContentOf LayoutTree)).toList).eraseDups := by
  have hclip := (Definition.tints_addClip defs inner radius).trans h
  rw [picture, tintOf?]
  split
  · simpa using h
  · cases image.tint with
    | none => simpa using hclip
    | some color => exact Definition.tints_addTint hclip color

mutual

/-- After a node there is a filter for every color of tinted images up to there. -/
theorem tints_drawNode : ∀ (n : LayoutNode) {defs : List Definition} {colors : List String},
    Definition.tints defs = colors.eraseDups → Definition.tints (drawNode i n defs).2 =
      (colors ++ (metNode n).filterMap tint?).eraseDups
  | ⟨id, path, content, frame, inner, style, action, hidden, children⟩, defs, colors, h => by
    cases hidden with
    | true =>
      rw [drawNode_of_hidden i rfl, metNode, if_pos rfl]
      simpa [tint?] using h
    | false =>
      have hbehind := (i.tints_background
        ⟨id, path, content, frame, inner, style, action, false, children⟩ defs).trans h
      have hshown := tints_drawContent inner style.radius content hbehind
      have hbelow := tints_drawNodes children hshown
      rw [drawNode_of_shown i rfl, metNode, if_neg Bool.false_ne_true]
      refine hbelow.trans ?_
      cases htint : tintOf? content <;> simp [tint?, htint]

theorem tints_drawContent (inner : Rect) (radius : Binary64) :
    ∀ (content : ContentOf (LayoutOf LayoutNode)) {defs : List Definition} {colors : List String},
      Definition.tints defs = colors.eraseDups →
        Definition.tints (drawContent i inner radius content defs).2 =
          (colors ++ ((tintOf? content).toList ++
            (metContent inner content).filterMap tint?)).eraseDups
  | .root, defs, colors, h => by simpa [drawContent, tintOf?, metContent] using h
  | .box _, defs, colors, h => by simpa [drawContent, tintOf?, metContent] using h
  | .text t, defs, colors, h => by simpa [drawContent, tintOf?, metContent] using h
  | .image image, defs, colors, h => by
    simpa [drawContent, metContent] using i.tints_picture inner radius image h
  | .carousel spacing scroll pages, defs, colors, h => by
    have hclip := (Definition.tints_addClip defs inner 0).trans h
    rw [drawContent_carousel, metContent]
    simpa [tintOf?] using tints_drawPages inner scroll pages hclip

theorem tints_drawPages (inner : Rect) (scroll : Binary64) :
    ∀ (pages : List (PageOf (LayoutOf LayoutNode))) {defs : List Definition}
      {colors : List String}, Definition.tints defs = colors.eraseDups →
        Definition.tints (drawPages i inner scroll pages defs).2 =
          (colors ++ (metPages inner scroll pages).filterMap tint?).eraseDups
  | [], defs, colors, h => by simpa [drawPages, metPages] using h
  | ⟨offset, none⟩ :: rest, defs, colors, h => by
    rw [drawPages_of_none, metPages]
    exact tints_drawPages inner scroll rest h
  | ⟨offset, some ⟨width, height, root⟩⟩ :: rest, defs, colors, h => by
    rw [metPages]
    by_cases hsight : IsInSight inner scroll offset width
    · have hpages := tints_drawPages inner scroll rest (tints_drawNode root h)
      rw [drawPages_of_inSight i ⟨width, height, root⟩ hsight, if_pos hsight]
      simpa using hpages
    · rw [drawPages_of_not_inSight i ⟨width, height, root⟩ hsight, if_neg hsight]
      exact tints_drawPages inner scroll rest h

theorem tints_drawNodes : ∀ (ns : List LayoutNode) {defs : List Definition}
    {colors : List String}, Definition.tints defs = colors.eraseDups →
      Definition.tints (drawNodes i ns defs).2 =
        (colors ++ (metNodes ns).filterMap tint?).eraseDups
  | [], defs, colors, h => by simpa [drawNodes, metNodes] using h
  | n :: rest, defs, colors, h => by
    have hrest := tints_drawNodes rest (tints_drawNode n h)
    rw [drawNodes_cons, metNodes]
    simpa using hrest

end

end Ink

/-! ## The strings of a document -/

theorem flatMap_elements (start : String) (clips tints : Nat) (defs : List Definition) :
    (Definition.elements start clips tints defs).flatMap (·.read.inscriptions) =
      (Definition.tints defs).map (.attribute "feFlood" "flood-color") := by
  induction defs generalizing clips tints with
  | nil => rfl
  | cons d rest ih =>
    cases d with
    | clip rect radius =>
      rw [Definition.elements, List.flatMap_cons, ih, Definition.element,
        Element.inscriptions_group (by decide), List.flatMap_singleton,
        Element.inscriptions_leaf (by decide)]
      simp [Attribute.inscription?, isInscribed, rectAttributes, Definition.tints]
    | tint color =>
      rw [Definition.elements, List.flatMap_cons, ih, Definition.element,
        Element.inscriptions_group (by decide), List.flatMap_cons, List.flatMap_singleton,
        Element.inscriptions_leaf (by decide), Element.inscriptions_leaf (by decide)]
      simp [Attribute.inscription?, isInscribed, Attribute.read_text, Definition.tints]

/-- A document shows the colors of its tint filters and the strings of its elements. -/
theorem Document.inscriptions_element (d : Document) (s : SvgSettings) :
    (d.element s).read.inscriptions =
      (Definition.tints d.definitions).map (.attribute "feFlood" "flood-color") ++
        d.elements.flatMap (·.read.inscriptions) := by
  have hstyle : (Element.text "style" [] (d.styleText s)).read.inscriptions = [] := by
    rw [Element.read, Xml.inscriptions, if_neg (by decide), Xml.inscriptionsOf]
    rfl
  have hdefinitions : (d.definitionElements s).flatMap (·.read.inscriptions) =
      (Definition.tints d.definitions).map (.attribute "feFlood" "flood-color") := by
    rw [← flatMap_elements s.classStart 0 0, definitionElements]
    split
    · next hnil => rw [hnil]
    · rw [List.flatMap_singleton, Element.inscriptions_group (by decide)]
      rfl
  rw [element, Element.inscriptions_group (by decide), List.flatMap_cons, List.flatMap_append,
    hstyle, hdefinitions]
  simp [attributes, Attribute.inscription?, isInscribed]

/-- A document shows the strings of the layout. -/
theorem inscriptions_draw (s : SvgSettings) (t : Theme) (a : Appearance) (tree : LayoutTree) :
    ((draw s t a tree).element s).read.inscriptions =
      Ink.inscriptions ⟨s, t.color "text-default" a, t.color "downloading-background" a⟩ tree := by
  let i : Ink := ⟨s, t.color "text-default" a, t.color "downloading-background" a⟩
  have hempty : Definition.tints [] = ([] : List String).eraseDups := rfl
  have htints : Definition.tints (drawNode i tree.root []).2 =
      ((metNode tree.root).filterMap tint?).eraseDups := by
    simpa using i.tints_drawNode tree.root hempty
  have hstrings := flatMap_drawNode i tree.root []
  rw [Document.inscriptions_element, Ink.inscriptions, ← htints, ← hstrings]
  rfl

end MessageCard.Svg
