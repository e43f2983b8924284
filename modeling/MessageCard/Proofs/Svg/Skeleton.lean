import Mathlib.Logic.Function.Basic
import MessageCard.Proofs.Svg.Inscriptions

/-!
# What strings do not change

Without the strings of the layout a document is a skeleton. The skeleton is the same whatever the
strings are, as long as the layouts agree on which images are spinners and on which images have the
same tint: no string adds an element or an attribute, or changes one.
-/
namespace MessageCard.Svg

/-! ## Skeletons -/

namespace Xml

mutual

/-- An element and all inside it with the strings of the layout left out. -/
def skeleton : Xml → Xml
  | ⟨tag, attributes, text, children⟩ =>
    ⟨tag, attributes.map fun a => (a.1, if isInscribed tag a.1 then "" else a.2),
      if tag = "text" then "" else text, skeletons children⟩

/-- Elements with one parent, with the strings of the layout left out. -/
def skeletons : List Xml → List Xml
  | [] => []
  | x :: rest => x.skeleton :: skeletons rest

end

theorem skeletons_eq_map (xs : List Xml) : skeletons xs = xs.map skeleton := by
  induction xs with
  | nil => rfl
  | cons x rest ih => rw [skeletons, ih, List.map_cons]

end Xml

namespace Attribute

/-- An attribute of an element, without its value if that is a string of the layout. -/
def skeleton (tag : String) (a : Attribute) : String × String :=
  (a.name, if isInscribed tag a.name then "" else a.read.2)

theorem skeleton_text {tag name : String} (h : isInscribed tag name) (value : String) :
    (text name value).skeleton tag = (name, "") := by
  rw [skeleton, name_text, if_pos h]

end Attribute

namespace Element

/-- The skeleton of an element. -/
def skeleton (e : Element) : Xml := e.read.skeleton

theorem skeleton_leaf (tag : String) (attributes : List Attribute) :
    (leaf tag attributes).skeleton = ⟨tag, attributes.map (·.skeleton tag), "", []⟩ := by
  rw [skeleton, read, Xml.skeleton, Xml.skeletons, List.map_map, ite_self]
  rfl

theorem skeleton_text (attributes : List Attribute) (written : List Char) :
    (text "text" attributes written).skeleton =
      ⟨"text", attributes.map (·.skeleton "text"), "", []⟩ := by
  rw [skeleton, read, Xml.skeleton, Xml.skeletons, List.map_map, if_pos rfl]
  rfl

theorem skeleton_group (tag : String) (attributes : List Attribute) (es : List Element) :
    (group tag attributes es).skeleton =
      ⟨tag, attributes.map (·.skeleton tag), "", es.map skeleton⟩ := by
  rw [skeleton, read, Xml.skeleton, Xml.skeletons_eq_map, readAll_eq_map, List.map_map,
    List.map_map, ite_self]
  rfl

theorem skeleton_group_congr {tag : String} {attributes others : List Attribute}
    {es fs : List Element}
    (h : attributes.map (·.skeleton tag) = others.map (·.skeleton tag))
    (hchildren : es.map (·.skeleton) = fs.map (·.skeleton)) :
    (group tag attributes es).skeleton = (group tag others fs).skeleton := by
  rw [skeleton_group, skeleton_group, h]
  exact congrArg (Xml.mk _ _ _) hchildren

end Element

/-! ## Layouts without strings -/

/-- The look of a node without its strings. -/
def blankLook (s : NodeStyle) : NodeStyle where
  backgroundColor := s.backgroundColor.map fun _ => ""
  backgroundImage := s.backgroundImage.map fun _ => ""
  borderWidth := s.borderWidth
  borderColor := s.borderColor.map fun _ => ""
  radius := s.radius

/-- A text without its strings. It keeps its number of lines. -/
def blankText (t : TextContent) : TextContent :=
  { t with text := "", lines := t.lines.map fun _ => [], color := t.color.map fun _ => "" }

/-- An image without its strings. A spinner stays one, and the tint is only renamed. -/
def blankImage (f : String → String) (image : ImageContent) : ImageContent :=
  { image with
    url := if image.url = StandIn.spinnerUrl then StandIn.spinnerUrl else ""
    tint := image.tint.map f }

/-- An action without its strings. -/
def blankAction (a : Action) : Action :=
  { a with data := "", alternative := a.alternative.map fun _ => "" }

mutual

/-- A node and all below it without strings, apart from tints, which are renamed. -/
def blankNode (f : String → String) : LayoutNode → LayoutNode
  | ⟨id, _, content, frame, inner, style, action, hidden, children⟩ =>
    ⟨id, "", blankContent f content, frame, inner, blankLook style, action.map blankAction, hidden,
      blankNodes f children⟩

/-- What a node shows, without strings. -/
def blankContent (f : String → String) :
    ContentOf (LayoutOf LayoutNode) → ContentOf (LayoutOf LayoutNode)
  | .root => .root
  | .box direction => .box direction
  | .text t => .text (blankText t)
  | .image image => .image (blankImage f image)
  | .carousel spacing scroll pages => .carousel spacing scroll (blankPages f pages)

/-- The pages of a carousel without strings. -/
def blankPages (f : String → String) :
    List (PageOf (LayoutOf LayoutNode)) → List (PageOf (LayoutOf LayoutNode))
  | [] => []
  | ⟨offset, none⟩ :: rest => ⟨offset, none⟩ :: blankPages f rest
  | ⟨offset, some ⟨width, height, root⟩⟩ :: rest =>
    ⟨offset, some ⟨width, height, blankNode f root⟩⟩ :: blankPages f rest

/-- Nodes with one parent, without strings. -/
def blankNodes (f : String → String) : List LayoutNode → List LayoutNode
  | [] => []
  | n :: rest => blankNode f n :: blankNodes f rest

end

section

variable (f : String → String) (n : LayoutNode)

@[simp] theorem hidden_blankNode : (blankNode f n).hidden = n.hidden := by
  cases n
  rw [blankNode]

@[simp] theorem frame_blankNode : (blankNode f n).frame = n.frame := by
  cases n
  rw [blankNode]

@[simp] theorem inner_blankNode : (blankNode f n).inner = n.inner := by
  cases n
  rw [blankNode]

@[simp] theorem style_blankNode : (blankNode f n).style = blankLook n.style := by
  cases n
  rw [blankNode]

@[simp] theorem content_blankNode : (blankNode f n).content = blankContent f n.content := by
  cases n
  rw [blankNode]

@[simp] theorem action_blankNode : (blankNode f n).action = n.action.map blankAction := by
  cases n
  rw [blankNode]

@[simp] theorem children_blankNode : (blankNode f n).children = blankNodes f n.children := by
  cases n
  rw [blankNode]

end

/-- A layout without strings, apart from tints, which are renamed. -/
def blank (f : String → String) (tree : LayoutTree) : LayoutTree :=
  ⟨tree.width, tree.height, blankNode f tree.root⟩

/-! ## Definitions -/

namespace Definition

/-- A definition with its color renamed. -/
def rename (f : String → String) : Definition → Definition
  | .clip rect radius => .clip rect radius
  | .tint color => .tint (f color)

variable {f : String → String}

theorem clipCount_map_rename (defs : List Definition) :
    clipCount (defs.map (rename f)) = clipCount defs := by
  rw [clipCount, clipCount, List.countP_map]
  refine List.countP_congr fun d _ => ?_
  cases d <;> rfl

theorem tints_map_rename (defs : List Definition) :
    tints (defs.map (rename f)) = (tints defs).map f := by
  rw [tints, tints, List.filterMap_map, List.map_filterMap]
  refine List.filterMap_congr fun d _ => ?_
  cases d <;> rfl

theorem addClip_map_rename (defs : List Definition) (rect : Rect) (radius : Binary64) :
    addClip (defs.map (rename f)) rect radius =
      ((addClip defs rect radius).1, (addClip defs rect radius).2.map (rename f)) := by
  simp [addClip, clipCount_map_rename, rename]

theorem addTint_map_rename (hf : Function.Injective f) (defs : List Definition) (color : String) :
    addTint (defs.map (rename f)) (f color) =
      ((addTint defs color).1, (addTint defs color).2.map (rename f)) := by
  have hfind : ((tints defs).map f).idxOf? (f color) = (tints defs).idxOf? color := by
    rw [List.idxOf?, List.idxOf?, List.findIdx?_map]
    congr 1
    funext c
    simp [hf.eq_iff]
  rw [addTint, addTint, tints_map_rename, hfind]
  cases (tints defs).idxOf? color <;> simp [rename]

/-- Renaming a color changes nothing in a skeleton. -/
theorem skeletons_elements (start : String) (clips tints : Nat) (defs : List Definition) :
    (elements start clips tints (defs.map (rename f))).map (·.skeleton) =
      (elements start clips tints defs).map (·.skeleton) := by
  induction defs generalizing clips tints with
  | nil => rfl
  | cons d rest ih =>
    cases d with
    | clip rect radius =>
      rw [List.map_cons, rename, elements, elements, List.map_cons, ih, List.map_cons]
    | tint color =>
      rw [List.map_cons, rename, elements, elements, List.map_cons, ih, List.map_cons]
      simp [element, Element.skeleton_group, Element.skeleton_leaf, Attribute.skeleton, isInscribed]

end Definition

/-! ## Elements of one node -/

namespace Ink

variable (i : Ink)

theorem skeleton_rect_congr (r : Rect) (radius : Binary64) (kind : String)
    {look other : List Attribute}
    (h : look.map (·.skeleton "rect") = other.map (·.skeleton "rect")) :
    (i.rect r radius kind look).skeleton = (i.rect r radius kind other).skeleton := by
  rw [rect, rect, Element.skeleton_leaf, Element.skeleton_leaf, List.map_append, h,
    ← List.map_append]

theorem skeleton_image (r : Rect) (source other aspect : String) (kinds : List String)
    (look : List Attribute) :
    (i.image r source aspect kinds look).skeleton =
      (i.image r other aspect kinds look).skeleton := by
  have href := Attribute.skeleton_text (show isInscribed "image" "href" by decide)
  rw [image, image, Element.skeleton_leaf, Element.skeleton_leaf]
  simp [href]

theorem outline_blankNode (f : String → String) (n : LayoutNode) :
    i.outline (blankNode f n) = i.outline n := by
  rw [outline, outline, frame_blankNode, hidden_blankNode]

theorem skeletons_stroke (s : NodeStyle) :
    (stroke (blankLook s)).map (·.skeleton "rect") = (stroke s).map (·.skeleton "rect") := by
  rw [stroke, stroke, blankLook]
  cases s.borderColor with
  | none => rfl
  | some color =>
    dsimp only [Option.map_some]
    split
    · simp [Attribute.skeleton, isInscribed]
    · rfl

theorem skeletons_backdrop (f : String → String) (n : LayoutNode) :
    (i.backdrop (blankNode f n)).map (·.skeleton) = (i.backdrop n).map (·.skeleton) := by
  have hstroke := skeletons_stroke n.style
  have hnil : stroke (blankLook n.style) = [] ↔ stroke n.style = [] := by
    rw [← List.map_eq_nil_iff, hstroke, List.map_eq_nil_iff]
  have hnone : (blankLook n.style).backgroundColor = none ↔ n.style.backgroundColor = none := by
    simp [blankLook]
  have hcolor : (blankLook n.style).backgroundColor = n.style.backgroundColor.map fun _ => "" := rfl
  have hfill := Attribute.skeleton_text (show isInscribed "rect" "fill" by decide)
  rw [backdrop, backdrop]
  simp only [style_blankNode, frame_blankNode, hnil, hnone]
  split
  · rfl
  · refine congrArg (List.cons · []) (i.skeleton_rect_congr _ _ _ ?_)
    rw [List.map_cons, List.map_cons, hstroke, hcolor]
    cases n.style.backgroundColor with
    | none => rfl
    | some color => simp only [Option.map_some, hfill]

theorem skeletons_textLines (inner : Rect) (t : TextContent) :
    (i.textLines inner (blankText t)).map (·.skeleton) =
      (i.textLines inner t).map (·.skeleton) := by
  have hattributes : ∀ index, (i.lineAttributes inner (blankText t) index).map
      (·.skeleton "text") = (i.lineAttributes inner t index).map (·.skeleton "text") := by
    intro index
    have hfill := Attribute.skeleton_text (show isInscribed "text" "fill" by decide)
    rw [lineAttributes, lineAttributes]
    simp [hfill, blankText]
  have hlines : ∀ other : TextContent, (i.textLines inner other).map (·.skeleton) =
      (List.range' 0 other.lines.length).map fun index =>
        ⟨"text", (i.lineAttributes inner other index).map (·.skeleton "text"), "", []⟩ := by
    intro other
    rw [textLines_eq, List.map_map, ← List.zipIdx_map_snd, List.map_map]
    exact List.map_congr_left fun line _ => Element.skeleton_text _ _
  rw [hlines, hlines]
  simp only [hattributes]
  simp [blankText]

theorem skeleton_spinner (inner : Rect) (color other : String) :
    (i.spinner inner color).skeleton = (i.spinner inner other).skeleton := by
  rw [spinner, spinner, Element.skeleton_leaf, Element.skeleton_leaf]
  simp [Attribute.skeleton, isInscribed]

end Ink

/-! ## Drawings -/

/-- A drawing that is like another one apart from strings: it has the same skeletons, and it refers
to the same definitions with their colors renamed. -/
structure IsLike (f : String → String) (drawn other : List Element × List Definition) : Prop where
  skeletons : drawn.1.map (·.skeleton) = other.1.map (·.skeleton)
  definitions : drawn.2 = other.2.map (Definition.rename f)

variable {f : String → String} (i : Ink)

theorem isLike_background (n : LayoutNode) (defs : List Definition) :
    IsLike f (i.background (blankNode f n) (defs.map (Definition.rename f)))
      (i.background n defs) := by
  have hbackdrop := i.skeletons_backdrop f n
  have hradius : (blankLook n.style).radius = n.style.radius := rfl
  have himage : (blankLook n.style).backgroundImage = n.style.backgroundImage.map fun _ => "" := rfl
  rw [Ink.background, Ink.background]
  simp only [style_blankNode, frame_blankNode, hradius, himage]
  cases n.style.backgroundImage with
  | none => exact ⟨hbackdrop, rfl⟩
  | some url =>
    simp only [Option.map_some, Definition.addClip_map_rename]
    refine ⟨?_, rfl⟩
    rw [List.map_cons, List.map_cons, hbackdrop]
    exact congrArg (List.cons · _) (i.skeleton_image _ _ _ _ _ _)

theorem isLike_picture (hf : Function.Injective f) (inner : Rect) (radius : Binary64)
    (image : ImageContent) (defs : List Definition) :
    IsLike f (i.picture inner radius (blankImage f image) (defs.map (Definition.rename f)))
      (i.picture inner radius image defs) := by
  have hspinner : (blankImage f image).url = StandIn.spinnerUrl ↔
      image.url = StandIn.spinnerUrl := by
    have hne : "" ≠ StandIn.spinnerUrl := by decide
    by_cases h : image.url = StandIn.spinnerUrl <;> simp [blankImage, h, hne]
  rw [Ink.picture, Ink.picture]
  simp only [hspinner, Definition.addClip_map_rename]
  split
  · exact ⟨congrArg (List.cons · []) (i.skeleton_spinner _ _ _), rfl⟩
  · have htint : (blankImage f image).tint = image.tint.map f := rfl
    rw [htint]
    cases image.tint with
    | none =>
      refine ⟨?_, rfl⟩
      rw [List.map_append, List.map_append]
      exact congrArg (_ ++ ·) (congrArg (List.cons · []) (i.skeleton_image _ _ _ _ _ _))
    | some color =>
      simp only [Option.map_some, Definition.addTint_map_rename hf]
      refine ⟨?_, rfl⟩
      rw [List.map_append, List.map_append]
      exact congrArg (_ ++ ·) (congrArg (List.cons · []) (i.skeleton_image _ _ _ _ _ _))

theorem kind_blankContent (content : ContentOf LayoutTree) :
    Ink.kind (blankContent f content) = Ink.kind content := by
  cases content <;> simp [blankContent, Ink.kind]

theorem skeletons_groupAttributes (n : LayoutNode) :
    (i.groupAttributes (blankNode f n)).map (·.skeleton "g") =
      (i.groupAttributes n).map (·.skeleton "g") := by
  have hid := Attribute.skeleton_text (show isInscribed "g" "id" by decide)
  rw [Ink.groupAttributes, Ink.groupAttributes]
  simp [hid, kind_blankContent]

/-- A node without strings is drawn like the node when what it shows and its children are. -/
theorem isLike_drawNode_of (n : LayoutNode)
    (hcontent : ∀ defs, IsLike f
      (drawContent i n.inner n.style.radius (blankContent f n.content)
        (defs.map (Definition.rename f)))
      (drawContent i n.inner n.style.radius n.content defs))
    (hchildren : ∀ defs, IsLike f
      (drawNodes i (blankNodes f n.children) (defs.map (Definition.rename f)))
      (drawNodes i n.children defs)) (defs : List Definition) :
    IsLike f (drawNode i (blankNode f n) (defs.map (Definition.rename f)))
      (drawNode i n defs) := by
  have houtline := i.outline_blankNode f n
  cases hhidden : n.hidden with
  | true =>
    rw [drawNode_of_hidden i hhidden, drawNode_of_hidden i (by rw [hidden_blankNode, hhidden]),
      houtline]
    exact ⟨rfl, rfl⟩
  | false =>
    have hbehind := isLike_background (f := f) i n defs
    have hshown := hcontent (i.background n defs).2
    have hbelow := hchildren
      (drawContent i n.inner n.style.radius n.content (i.background n defs).2).2
    have hradius : (blankLook n.style).radius = n.style.radius := rfl
    rw [drawNode_of_shown i hhidden, drawNode_of_shown i (by rw [hidden_blankNode, hhidden])]
    simp only [inner_blankNode, style_blankNode, content_blankNode, children_blankNode, hradius]
    rw [hbehind.definitions, hshown.definitions]
    refine ⟨?_, hbelow.definitions⟩
    rw [List.map_append, List.map_append, houtline]
    refine congrArg (_ ++ ·) (congrArg (List.cons · []) (Element.skeleton_group_congr
      (skeletons_groupAttributes i n) ?_))
    simp only [List.map_append, hbehind.skeletons, hshown.skeletons, hbelow.skeletons]

mutual

/-- A node without strings is drawn like the node. -/
theorem isLike_drawNode (hf : Function.Injective f) : ∀ (n : LayoutNode) (defs : List Definition),
    IsLike f (drawNode i (blankNode f n) (defs.map (Definition.rename f))) (drawNode i n defs)
  | ⟨id, path, content, frame, inner, style, action, hidden, children⟩, defs =>
    isLike_drawNode_of i ⟨id, path, content, frame, inner, style, action, hidden, children⟩
      (isLike_drawContent hf inner style.radius content) (isLike_drawNodes hf children) defs

theorem isLike_drawContent (hf : Function.Injective f) (inner : Rect) (radius : Binary64) :
    ∀ (content : ContentOf (LayoutOf LayoutNode)) (defs : List Definition),
      IsLike f (drawContent i inner radius (blankContent f content)
        (defs.map (Definition.rename f))) (drawContent i inner radius content defs)
  | .root, defs => by
    rw [blankContent, drawContent, drawContent]
    exact ⟨rfl, rfl⟩
  | .box _, defs => by
    rw [blankContent, drawContent, drawContent]
    exact ⟨rfl, rfl⟩
  | .text t, defs => by
    rw [blankContent, drawContent, drawContent]
    exact ⟨i.skeletons_textLines inner t, rfl⟩
  | .image image, defs => by
    rw [blankContent, drawContent, drawContent]
    exact isLike_picture i hf inner radius image defs
  | .carousel spacing scroll pages, defs => by
    have hpages := isLike_drawPages hf inner scroll pages (Definition.addClip defs inner 0).2
    rw [blankContent, drawContent_carousel, drawContent_carousel]
    simp only [Definition.addClip_map_rename]
    refine ⟨congrArg (List.cons · []) (Element.skeleton_group_congr rfl hpages.skeletons),
      hpages.definitions⟩

theorem isLike_drawPages (hf : Function.Injective f) (inner : Rect) (scroll : Binary64) :
    ∀ (pages : List (PageOf (LayoutOf LayoutNode))) (defs : List Definition),
      IsLike f (drawPages i inner scroll (blankPages f pages) (defs.map (Definition.rename f)))
        (drawPages i inner scroll pages defs)
  | [], defs => by
    rw [blankPages, drawPages, drawPages]
    exact ⟨rfl, rfl⟩
  | ⟨offset, none⟩ :: rest, defs => by
    rw [blankPages, drawPages_of_none, drawPages_of_none]
    exact isLike_drawPages hf inner scroll rest defs
  | ⟨offset, some ⟨width, height, root⟩⟩ :: rest, defs => by
    rw [blankPages]
    by_cases hsight : IsInSight inner scroll offset width
    · have hpage := isLike_drawNode hf root defs
      have hpages := isLike_drawPages hf inner scroll rest (drawNode i root defs).2
      rw [drawPages_of_inSight i ⟨width, height, root⟩ hsight,
        drawPages_of_inSight i ⟨width, height, _⟩ hsight]
      dsimp only
      rw [hpage.definitions]
      refine ⟨?_, hpages.definitions⟩
      rw [List.map_cons, List.map_cons, hpages.skeletons]
      exact congrArg (List.cons · _) (Element.skeleton_group_congr rfl hpage.skeletons)
    · rw [drawPages_of_not_inSight i ⟨width, height, root⟩ hsight,
        drawPages_of_not_inSight i ⟨width, height, _⟩ hsight]
      exact isLike_drawPages hf inner scroll rest defs

theorem isLike_drawNodes (hf : Function.Injective f) :
    ∀ (ns : List LayoutNode) (defs : List Definition),
      IsLike f (drawNodes i (blankNodes f ns) (defs.map (Definition.rename f)))
        (drawNodes i ns defs)
  | [], defs => by
    rw [blankNodes, drawNodes, drawNodes]
    exact ⟨rfl, rfl⟩
  | n :: rest, defs => by
    have hfirst := isLike_drawNode hf n defs
    have hrest := isLike_drawNodes hf rest (drawNode i n defs).2
    rw [blankNodes, drawNodes_cons, drawNodes_cons]
    dsimp only
    rw [hfirst.definitions]
    exact ⟨by rw [List.map_append, List.map_append, hfirst.skeletons, hrest.skeletons],
      hrest.definitions⟩

end

/-! ## Documents -/

theorem Document.skeleton_element_congr {d e : Document} (s : SvgSettings)
    (hwidth : d.width = e.width) (hheight : d.height = e.height) (hstyle : d.style = e.style)
    (h : IsLike f (d.elements, d.definitions) (e.elements, e.definitions)) :
    (d.element s).skeleton = (e.element s).skeleton := by
  have helements := Definition.skeletons_elements (f := f) s.classStart 0 0 e.definitions
  have hdefinitions : (d.definitionElements s).map (·.skeleton) =
      (e.definitionElements s).map (·.skeleton) := by
    have hdefs : d.definitions = e.definitions.map (Definition.rename f) := h.definitions
    rw [definitionElements, definitionElements, hdefs]
    generalize Definition.elements s.classStart 0 0 (e.definitions.map _) = es at helements
    generalize Definition.elements s.classStart 0 0 e.definitions = fs at helements
    have hnil : es = [] ↔ fs = [] := by
      rw [← List.map_eq_nil_iff, helements, List.map_eq_nil_iff]
    simp only [hnil]
    split
    · rfl
    · exact congrArg (List.cons · []) (Element.skeleton_group_congr rfl helements)
  have hattributes : d.attributes s.padding = e.attributes s.padding := by
    rw [attributes, attributes, hwidth, hheight]
  have htext : d.styleText s = e.styleText s := by
    rw [styleText, styleText, hstyle]
  rw [element, element, hattributes, htext]
  refine Element.skeleton_group_congr rfl ?_
  rw [List.map_cons, List.map_cons, List.map_append, List.map_append, hdefinitions, h.skeletons]

/-- The skeleton of a document is the same without the strings of the layout. -/
theorem skeleton_draw_blank (hf : Function.Injective f) (s : SvgSettings) (t : Theme)
    (a : Appearance) (tree : LayoutTree) :
    ((draw s t a (blank f tree)).element s).skeleton = ((draw s t a tree).element s).skeleton :=
  Document.skeleton_element_congr s rfl rfl rfl (isLike_drawNode _ hf tree.root [])

end MessageCard.Svg
