import MessageCard.Proofs.Svg.Inscriptions
import MessageCard.Proofs.Text.Brackets

/-!
# What the tags of a document name and refer to

Three attributes make the elements of a document hang together: an element is named by its `id`, and
it refers to a definition by its `clip-path` or its `filter`. In a drawing the nodes are named by
their paths. Pictures and the pages of carousels are clipped, each by a rectangle that is defined
for it alone, and a tinted picture is painted by the filter of its color.

A drawing is made step by step, and each step adds some tags to the document and some definitions
to those there are. What a step's tags refer to is stated with the definitions after it, and it
stays so with every later one, because definitions are only added behind the others.
-/
namespace MessageCard.Svg

/-! ## Tags in the order of a document -/

namespace Element

mutual

/-- The tags of an element and of all inside it, in the order of the document, each with its
attributes. -/
def tags : Element → List (String × List Attribute)
  | .leaf tag attributes => [(tag, attributes)]
  | .text tag attributes _ => [(tag, attributes)]
  | .group tag attributes children => (tag, attributes) :: tagsOf children

/-- The tags of elements with one parent. -/
def tagsOf : List Element → List (String × List Attribute)
  | [] => []
  | e :: rest => e.tags ++ tagsOf rest

end

theorem tagsOf_eq_flatMap (es : List Element) : tagsOf es = es.flatMap tags := by
  induction es with
  | nil => rfl
  | cons e rest ih => rw [tagsOf, ih, List.flatMap_cons]

theorem tags_group (tag : String) (attributes : List Attribute) (children : List Element) :
    (group tag attributes children).tags = (tag, attributes) :: children.flatMap tags := by
  rw [tags, tagsOf_eq_flatMap]

end Element

/-- The attributes that name an element. -/
def ids (t : String × List Attribute) : List Attribute := t.2.filter (·.name = "id")

/-- Whether an element is a picture or refers to a definition. -/
def isClipped (t : String × List Attribute) : Bool :=
  t.1 = "image" || t.2.any fun a => a.name = "clip-path" || a.name = "filter"

/-- A tag without a name that refers to nothing and is not one of a picture. -/
def IsBare (t : String × List Attribute) : Prop :=
  t.1 ≠ "image" ∧ ∀ a ∈ t.2, a.name ∉ ["id", "clip-path", "filter"]

theorem IsBare.ids_eq_nil {t : String × List Attribute} (h : IsBare t) : ids t = [] := by
  refine List.filter_eq_nil_iff.mpr fun a ha => ?_
  have hnames := h.2 a ha
  simp only [List.mem_cons, not_or] at hnames
  simp [hnames.1]

theorem IsBare.isClipped_eq {t : String × List Attribute} (h : IsBare t) :
    isClipped t = false := by
  rw [isClipped, Bool.or_eq_false_iff, List.any_eq_false]
  refine ⟨by simp [h.1], fun a ha => ?_⟩
  have hnames := h.2 a ha
  simp only [List.mem_cons, not_or] at hnames
  simp [hnames.2.1, hnames.2.2.1]

/-! ## What is clipped in a drawing -/

/-- An element that is clipped, and tinted if there is a color. -/
structure Clipping where
  tag : String
  rect : Rect
  radius : Binary64
  tint : Option String
  deriving DecidableEq

/-- The rectangle that an element is clipped by. -/
def Clipping.definition (c : Clipping) : Definition := .clip c.rect c.radius

/-- What is clipped of what a node shows: a picture, or the pages of a carousel. -/
def contentClippings {τ : Type} (inner : Rect) (radius : Binary64) : ContentOf τ → List Clipping
  | .image image =>
    if image.url = StandIn.spinnerUrl then [] else [⟨"image", inner, radius, image.tint⟩]
  | .carousel _ _ _ => [⟨"g", inner, 0, none⟩]
  | _ => []

/-- What is clipped of a node, without the nodes below it: a picture behind it by its frame, and
what it shows by the frame inside its padding. -/
def clippings (n : LayoutNode) : List Clipping :=
  if n.hidden then []
  else n.style.backgroundImage.toList.map (fun _ => ⟨"image", n.frame, n.style.radius, none⟩) ++
    contentClippings n.inner n.style.radius n.content

/-- The name of a node that is drawn. -/
def mark? (n : LayoutNode) : Option Attribute :=
  if n.hidden then none else some (.text "id" n.path)

/-- The tinted pictures are those with a tint. -/
theorem filterMap_tint_clippings (n : LayoutNode) :
    (clippings n).filterMap (·.tint) = (tint? n).toList := by
  rw [clippings, tint?]
  split
  · rfl
  · have hbehind : (n.style.backgroundImage.toList.map fun _ =>
        (⟨"image", n.frame, n.style.radius, none⟩ : Clipping)).filterMap (·.tint) = [] := by
      cases n.style.backgroundImage <;> rfl
    rw [List.filterMap_append, hbehind, List.nil_append]
    cases n.content with
    | image image =>
      simp only [contentClippings, tintOf?]
      split
      · rfl
      · cases image.tint <;> rfl
    | _ => rfl

/-! ## Steps of a drawing -/

namespace Ink

/-- A tag that is clipped by the rectangle with a number and by no other, and painted by the filter
of its tint if it has one. -/
structure Clips (i : Ink) (defs : List Definition) (c : Clipping) (number : Nat)
    (t : String × List Attribute) : Prop where
  tag_eq : t.1 = c.tag
  place : c.tag = "image" → rectAttributes c.rect ⊆ t.2
  clip : t.2.filter (·.name = "clip-path") = [i.clipPath number]
  tint : List.Forall₂ (fun color a =>
      ∃ k, (Definition.tints defs)[k]? = some color ∧ a = i.filter (k + 1))
    c.tint.toList (t.2.filter (·.name = "filter"))

/-- A step that adds tags and definitions: the names in the tags, and what is clipped in them, each
by the next rectangle. -/
structure Refers (i : Ink) (defs : List Definition) (ts : List (String × List Attribute))
    (out : List Definition) (names : List Attribute) (cs : List Clipping) : Prop where
  names_eq : ts.flatMap ids = names
  clipped : List.Forall₂ (fun c t => i.Clips out c.1 c.2 t)
    (cs.zipIdx (Definition.clipCount defs + 1)) (ts.filter isClipped)
  grown : ∃ more, out = defs ++ more ∧ more.filter Definition.isClip = cs.map (·.definition)

variable {i : Ink} {defs out : List Definition}

theorem Clips.append {c : Clipping} {number : Nat} {t : String × List Attribute}
    (h : i.Clips out c number t) (more : List Definition) : i.Clips (out ++ more) c number t where
  tag_eq := h.tag_eq
  place := h.place
  clip := h.clip
  tint := h.tint.imp fun color a ⟨k, hk, ha⟩ => by
    refine ⟨k, ?_, ha⟩
    rw [Definition.tints_append, List.getElem?_append_left (List.getElem?_eq_some_iff.mp hk).1, hk]

theorem Refers.filter_isClip {ts : List (String × List Attribute)} {names : List Attribute}
    {cs : List Clipping} (h : i.Refers defs ts out names cs) :
    out.filter Definition.isClip =
      defs.filter Definition.isClip ++ cs.map (·.definition) := by
  obtain ⟨more, rfl, hmore⟩ := h.grown
  rw [List.filter_append, hmore]

theorem Refers.clipCount_eq {ts : List (String × List Attribute)} {names : List Attribute}
    {cs : List Clipping} (h : i.Refers defs ts out names cs) :
    Definition.clipCount out = Definition.clipCount defs + cs.length := by
  rw [Definition.clipCount, List.countP_eq_length_filter, h.filter_isClip, List.length_append,
    List.length_map, ← List.countP_eq_length_filter]
  rfl

/-- Two steps, one after the other. -/
theorem Refers.append {ts us : List (String × List Attribute)} {names others : List Attribute}
    {cs ds : List Clipping} {final : List Definition} (h : i.Refers defs ts out names cs)
    (hnext : i.Refers out us final others ds) :
    i.Refers defs (ts ++ us) final (names ++ others) (cs ++ ds) where
  names_eq := by rw [List.flatMap_append, h.names_eq, hnext.names_eq]
  clipped := by
    obtain ⟨more, rfl, -⟩ := hnext.grown
    rw [List.filter_append, List.zipIdx_append]
    refine List.rel_append (h.clipped.imp fun c t hc => hc.append more) ?_
    have hnumber : Definition.clipCount out + 1 = Definition.clipCount defs + 1 + cs.length := by
      rw [h.clipCount_eq]
      omega
    exact hnumber ▸ hnext.clipped
  grown := by
    obtain ⟨first, rfl, hfirst⟩ := h.grown
    obtain ⟨more, rfl, hmore⟩ := hnext.grown
    refine ⟨first ++ more, List.append_assoc .., ?_⟩
    rw [List.filter_append, hfirst, hmore, List.map_append]

theorem refers_of_isClipped_eq {ts : List (String × List Attribute)}
    (h : ∀ t ∈ ts, isClipped t = false) (defs : List Definition) :
    i.Refers defs ts defs (ts.flatMap ids) [] where
  names_eq := rfl
  clipped := by
    rw [List.filter_eq_nil_iff.mpr fun t ht => by simp [h t ht]]
    exact .nil
  grown := ⟨[], (List.append_nil defs).symm, rfl⟩

/-- Bare tags add nothing. -/
theorem refers_of_isBare {ts : List (String × List Attribute)} (h : ∀ t ∈ ts, IsBare t)
    (defs : List Definition) : i.Refers defs ts defs [] [] := by
  have hnames : ts.flatMap ids = [] := List.flatMap_eq_nil_iff.mpr fun t ht => (h t ht).ids_eq_nil
  exact hnames ▸ refers_of_isClipped_eq (fun t ht => (h t ht).isClipped_eq) defs

variable (i)

/-- The group of a node names it. -/
theorem refers_groupAttributes (n : LayoutNode) (defs : List Definition) :
    i.Refers defs [("g", i.groupAttributes n)] defs [.text "id" n.path] [] := by
  have hids : ids ("g", i.groupAttributes n) = [.text "id" n.path] := by
    simp [ids, groupAttributes]
  have hclipped : isClipped ("g", i.groupAttributes n) = false := by
    simp [isClipped, groupAttributes]
  simpa [hids] using refers_of_isClipped_eq (i := i) (List.forall_mem_singleton.mpr hclipped) defs

/-- A tag that is clipped adds a rectangle, and a filter if it is the first of its tint. -/
theorem refers_clip {c : Clipping} {t : String × List Attribute} {more : List Definition}
    (hids : ids t = []) (h : i.Clips (defs ++ c.definition :: more) c
      (Definition.clipCount defs + 1) t) (hmore : more.filter Definition.isClip = []) :
    i.Refers defs [t] (defs ++ c.definition :: more) [] [c] where
  names_eq := by rw [List.flatMap_singleton, hids]
  clipped := by
    have hclipped : isClipped t = true := by
      have hmem : i.clipPath (Definition.clipCount defs + 1) ∈
          t.2.filter (·.name = "clip-path") := h.clip ▸ List.mem_singleton_self _
      rw [isClipped, Bool.or_eq_true, List.any_eq_true]
      exact .inr ⟨_, List.mem_of_mem_filter hmem, rfl⟩
    rw [List.filter_cons_of_pos hclipped]
    exact .cons h .nil
  grown := by
    have hisClip : Definition.isClip c.definition = true := rfl
    exact ⟨_, rfl, by simp [hisClip, hmore]⟩

/-! ## Elements of one node -/

theorem isBare_rect (r : Rect) (radius : Binary64) (kind : String) {look : List Attribute}
    (hlook : (look.map (·.name)).Sublist ["fill", "stroke", "stroke-width"]) :
    ∀ t ∈ (i.rect r radius kind look).tags, IsBare t := by
  have hnames : ∀ a ∈ look, a.name ∉ ["id", "clip-path", "filter"] := by
    intro a ha
    have hmem := hlook.subset (List.mem_map_of_mem ha)
    have hapart : ∀ name ∈ ["fill", "stroke", "stroke-width"],
        name ∉ ["id", "clip-path", "filter"] := by decide
    exact hapart _ hmem
  rw [rect, Element.tags, List.forall_mem_singleton]
  refine ⟨by simp, ?_⟩
  simp only [List.forall_mem_append]
  refine ⟨⟨?_, ?_⟩, hnames⟩
  · simp [rectAttributes]
  · split <;> simp

theorem isBare_outline (n : LayoutNode) : ∀ t ∈ (i.outline n).flatMap (·.tags), IsBare t := by
  rw [outline]
  split
  · rw [List.flatMap_singleton]
    exact i.isBare_rect _ _ _ (.refl _)
  · simp

theorem isBare_backdrop (n : LayoutNode) : ∀ t ∈ (i.backdrop n).flatMap (·.tags), IsBare t := by
  have hstroke := names_stroke n.style
  rw [backdrop]
  split
  · simp
  · rw [List.flatMap_singleton]
    refine i.isBare_rect _ _ _ ?_
    rw [List.map_cons]
    split <;> exact hstroke.cons_cons "fill"

theorem isBare_textLines (inner : Rect) (t : TextContent) :
    ∀ u ∈ (i.textLines inner t).flatMap (·.tags), IsBare u := by
  intro u hu
  rw [textLines_eq, List.flatMap_map] at hu
  obtain ⟨line, -, hu⟩ := List.mem_flatMap.mp hu
  obtain rfl := List.mem_singleton.mp hu
  refine ⟨by simp, ?_⟩
  simp only [lineAttributes, List.forall_mem_append, List.forall_mem_cons]
  refine ⟨by simp, by simp, ?_⟩
  split <;> simp

theorem isBare_spinner (inner : Rect) (color : String) :
    ∀ t ∈ (i.spinner inner color).tags, IsBare t := by
  rw [spinner, Element.tags, List.forall_mem_singleton]
  exact ⟨by simp, by simp⟩

/-- A picture that is clipped, and painted by the filter of its tint if it has one. -/
theorem refers_image {defs more : List Definition} (r : Rect) (radius : Binary64)
    (source aspect : String) (kinds : List String) {tint : Option String} {look : List Attribute}
    (hlook : ∀ a ∈ look, a.name = "filter")
    (htint : List.Forall₂ (fun color a => ∃ k,
      (Definition.tints (defs ++ .clip r radius :: more))[k]? = some color ∧ a = i.filter (k + 1))
        tint.toList look)
    (hmore : more.filter Definition.isClip = []) :
    i.Refers defs
      (i.image r source aspect kinds (i.clipPath (Definition.clipCount defs + 1) :: look)).tags
      (defs ++ .clip r radius :: more) [] [⟨"image", r, radius, tint⟩] := by
  have hall : look.filter (·.name = "filter") = look :=
    List.filter_eq_self.mpr fun a ha => by simp [hlook a ha]
  have hnone : ∀ name, name ≠ "filter" → look.filter (·.name = name) = [] := by
    intro name hname
    exact List.filter_eq_nil_iff.mpr fun a ha => by simp [hlook a ha, hname.symm]
  have hids := hnone "id" (by decide)
  have hclip := hnone "clip-path" (by decide)
  refine i.refers_clip (c := ⟨"image", r, radius, tint⟩) ?_ ⟨rfl, fun _ a ha => ?_, ?_, ?_⟩ hmore
  · simp [ids, rectAttributes, hids]
  · simp [ha]
  · simp [rectAttributes, hclip]
  · simpa [rectAttributes, hall, Clipping.definition] using htint

theorem refers_background (n : LayoutNode) (defs : List Definition) :
    i.Refers defs ((i.background n defs).1.flatMap (·.tags)) (i.background n defs).2 []
      (n.style.backgroundImage.toList.map fun _ =>
        ⟨"image", n.frame, n.style.radius, none⟩) := by
  rw [background]
  cases n.style.backgroundImage with
  | none => exact refers_of_isBare (i.isBare_backdrop n) defs
  | some url =>
    have himage : i.Refers defs _ (defs ++ [.clip n.frame n.style.radius]) []
        [⟨"image", n.frame, n.style.radius, none⟩] :=
      i.refers_image n.frame n.style.radius url "xMidYMid slice" ["background"]
        (List.forall_mem_nil _) .nil rfl
    exact himage.append (refers_of_isBare (i.isBare_backdrop n) _)

/-- The filter of a color is the one that the definitions have for it afterwards. -/
theorem getElem?_tints_addTint (defs : List Definition) (color : String) :
    ∃ k, (Definition.addTint defs color).1 = k + 1 ∧
      (Definition.tints (Definition.addTint defs color).2)[k]? = some color := by
  rw [Definition.addTint]
  cases hfind : (Definition.tints defs).idxOf? color with
  | none => exact ⟨_, rfl, by simp [Definition.tints]⟩
  | some k =>
    obtain ⟨hk, hget⟩ := List.findIdx?_eq_some_iff_getElem.mp hfind
    refine ⟨k, rfl, ?_⟩
    rw [List.getElem?_eq_getElem hk]
    simpa using hget.1

/-- Behind the definitions that there are, a color adds at most a filter. -/
theorem exists_addTint (defs : List Definition) (color : String) :
    ∃ more, (Definition.addTint defs color).2 = defs ++ more ∧
      more.filter Definition.isClip = [] := by
  rw [Definition.addTint]
  split
  · exact ⟨[], (List.append_nil defs).symm, rfl⟩
  · exact ⟨[.tint color], rfl, rfl⟩

theorem refers_picture (inner : Rect) (radius : Binary64) (image : ImageContent)
    (defs : List Definition) :
    i.Refers defs ((i.picture inner radius image defs).1.flatMap (·.tags))
      (i.picture inner radius image defs).2 []
      (contentClippings inner radius (.image image : ContentOf LayoutTree)) := by
  rw [picture, contentClippings]
  split
  · rw [List.flatMap_singleton]
    exact refers_of_isBare (i.isBare_spinner _ _) defs
  · have hplaceholder : ∀ t ∈ (if image.bitmap.isSome then []
        else [i.rect inner radius "image-placeholder" [.text "fill" i.placeholder]]).flatMap
          (·.tags), IsBare t := by
      split
      · simp
      · rw [List.flatMap_singleton]
        exact i.isBare_rect _ _ _ (List.sublist_append_left ["fill"] ["stroke", "stroke-width"])
    dsimp only
    rw [List.flatMap_append, List.flatMap_singleton]
    have hbehind : i.Refers defs _ defs [] [] := refers_of_isBare hplaceholder defs
    refine hbehind.append ?_
    cases image.tint with
    | none => exact i.refers_image _ _ _ _ _ (List.forall_mem_nil _) .nil rfl
    | some color =>
      obtain ⟨k, hnumber, hk⟩ :=
        getElem?_tints_addTint (Definition.addClip defs inner radius).2 color
      obtain ⟨more, hout, hmore⟩ := exists_addTint (Definition.addClip defs inner radius).2 color
      have hgrown : (Definition.addClip defs inner radius).2 ++ more =
          defs ++ .clip inner radius :: more := List.append_assoc ..
      rw [hout, hgrown] at hk
      dsimp only
      rw [hnumber, hout, hgrown]
      exact i.refers_image _ _ _ _ _ (List.forall_mem_singleton.mpr rfl)
        (.cons ⟨k, hk, rfl⟩ .nil) hmore

/-- The group around the pages of a carousel. -/
theorem refers_pagesGroup (inner : Rect) (defs : List Definition) :
    i.Refers defs [("g", [i.clipPath (Definition.addClip defs inner 0).1])]
      (Definition.addClip defs inner 0).2 [] [⟨"g", inner, 0, none⟩] := by
  refine i.refers_clip (c := ⟨"g", inner, 0, none⟩) rfl ?_ rfl
  exact ⟨rfl, fun h => absurd h (by simp), rfl, .nil⟩

/-! ## Drawings -/

mutual

/-- What is drawn for a node names the nodes that the drawing comes to, and has an element for
everything that is clipped of them. -/
theorem refers_drawNode : ∀ (n : LayoutNode) (defs : List Definition),
    i.Refers defs ((drawNode i n defs).1.flatMap (·.tags)) (drawNode i n defs).2
      ((metNode n).filterMap mark?) ((metNode n).flatMap clippings)
  | ⟨id, path, content, frame, inner, style, action, hidden, children⟩, defs => by
    cases hidden with
    | true =>
      rw [drawNode_of_hidden i rfl, metNode, if_pos rfl]
      exact refers_of_isBare (i.isBare_outline _) defs
    | false =>
      rw [drawNode_of_shown i rfl, metNode, if_neg Bool.false_ne_true]
      let n : LayoutNode := ⟨id, path, content, frame, inner, style, action, false, children⟩
      have hbehind := i.refers_background n defs
      have hshown := refers_drawContent inner style.radius content (i.background n defs).2
      have hbelow := refers_drawNodes children
        (drawContent i inner style.radius content (i.background n defs).2).2
      have hgroup := (i.refers_groupAttributes n defs).append
        ((hbehind.append hshown).append hbelow)
      have hall := (refers_of_isBare (i := i) (i.isBare_outline n) defs).append hgroup
      simpa [n, Element.tags_group, mark?, clippings] using hall

theorem refers_drawContent (inner : Rect) (radius : Binary64) :
    ∀ (content : ContentOf (LayoutOf LayoutNode)) (defs : List Definition),
      i.Refers defs ((drawContent i inner radius content defs).1.flatMap (·.tags))
        (drawContent i inner radius content defs).2 ((metContent inner content).filterMap mark?)
        (contentClippings inner radius content ++ (metContent inner content).flatMap clippings)
  | .root, defs => by
    rw [drawContent, metContent]
    · exact refers_of_isBare (by simp) defs
    · simp
  | .box _, defs => by
    rw [drawContent, metContent]
    · exact refers_of_isBare (by simp) defs
    · simp
  | .text t, defs => by
    rw [drawContent, metContent]
    · exact refers_of_isBare (i.isBare_textLines inner t) defs
    · simp
  | .image image, defs => by
    rw [drawContent, metContent]
    · simpa using i.refers_picture inner radius image defs
    · simp
  | .carousel spacing scroll pages, defs => by
    have hpages := (i.refers_pagesGroup inner defs).append
      (refers_drawPages inner scroll pages (Definition.addClip defs inner 0).2)
    rw [drawContent_carousel, metContent]
    simpa [Element.tags_group, contentClippings] using hpages

theorem refers_drawPages (inner : Rect) (scroll : Binary64) :
    ∀ (pages : List (PageOf (LayoutOf LayoutNode))) (defs : List Definition),
      i.Refers defs ((drawPages i inner scroll pages defs).1.flatMap (·.tags))
        (drawPages i inner scroll pages defs).2 ((metPages inner scroll pages).filterMap mark?)
        ((metPages inner scroll pages).flatMap clippings)
  | [], defs => by
    rw [drawPages, metPages]
    exact refers_of_isBare (by simp) defs
  | ⟨offset, none⟩ :: rest, defs => by
    rw [drawPages_of_none, metPages]
    exact refers_drawPages inner scroll rest defs
  | ⟨offset, some ⟨width, height, root⟩⟩ :: rest, defs => by
    rw [metPages]
    by_cases hsight : IsInSight inner scroll offset width
    · have hbare : ∀ t ∈ [("g", [i.classes ["page"],
          translate (inner.x + offset - scroll) inner.y])], IsBare t := by
        simp [IsBare, translate]
      have hgroup := (refers_of_isBare (i := i) hbare defs).append (refers_drawNode root defs)
      have hpages := hgroup.append (refers_drawPages inner scroll rest (drawNode i root defs).2)
      rw [drawPages_of_inSight i ⟨width, height, root⟩ hsight, if_pos hsight]
      simpa [Element.tags_group] using hpages
    · rw [drawPages_of_not_inSight i ⟨width, height, root⟩ hsight, if_neg hsight]
      exact refers_drawPages inner scroll rest defs

theorem refers_drawNodes : ∀ (ns : List LayoutNode) (defs : List Definition),
    i.Refers defs ((drawNodes i ns defs).1.flatMap (·.tags)) (drawNodes i ns defs).2
      ((metNodes ns).filterMap mark?) ((metNodes ns).flatMap clippings)
  | [], defs => by
    rw [drawNodes, metNodes]
    exact refers_of_isBare (by simp) defs
  | n :: rest, defs => by
    have hboth := (refers_drawNode n defs).append (refers_drawNodes rest (drawNode i n defs).2)
    rw [drawNodes_cons, metNodes]
    simpa using hboth

end

end Ink

/-! ## Definitions and their names -/

namespace Definition

/-- Definitions with their names, the first with the next free number of its kind. -/
def named (start : String) : Nat → Nat → List Definition → List (String × Definition)
  | _, _, [] => []
  | clips, tints, .clip rect radius :: rest =>
    (clipName start (clips + 1), .clip rect radius) :: named start (clips + 1) tints rest
  | clips, tints, .tint color :: rest =>
    (tintName start (tints + 1), .tint color) :: named start clips (tints + 1) rest

/-- A definition under a name as an element. -/
def titled (name : String) : Definition → Element
  | .clip rect radius =>
    .group "clipPath" [.word "id" name]
      [.leaf "rect" (rectAttributes rect ++ [.number "rx" radius])]
  | .tint color =>
    .group "filter" [.word "id" name] [.leaf "feFlood" [.text "flood-color" color],
      .leaf "feComposite" [.word "in2" "SourceAlpha", .word "operator" "in"]]

theorem elements_eq_map_named (start : String) (clips tints : Nat) (defs : List Definition) :
    elements start clips tints defs =
      (named start clips tints defs).map fun e => titled e.1 e.2 := by
  induction defs generalizing clips tints with
  | nil => rfl
  | cons d rest ih => cases d <;> rw [elements, named, ih] <;> rfl

/-- A rectangle is named by its place among the rectangles, and a filter by that of its color. -/
theorem mem_named {start : String} {clips tints : Nat} {defs : List Definition} {name : String}
    {d : Definition} : (name, d) ∈ named start clips tints defs ↔
      (∃ k, (defs.filter isClip)[k]? = some d ∧ name = clipName start (clips + k + 1)) ∨
      ∃ k color, (Definition.tints defs)[k]? = some color ∧ d = .tint color ∧
        name = tintName start (tints + k + 1) := by
  induction defs generalizing clips tints with
  | nil => simp [named, Definition.tints]
  | cons first rest ih =>
    have hnext : ∀ n k : Nat, n + 1 + k = n + (k + 1) := by omega
    cases first with
    | clip rect radius =>
      have htints : Definition.tints (.clip rect radius :: rest) = Definition.tints rest := rfl
      rw [named, List.mem_cons, ih, htints, List.filter_cons_of_pos rfl, ← or_assoc]
      refine or_congr_left ⟨?_, ?_⟩
      · rintro (heq | ⟨k, hk, rfl⟩)
        · cases heq
          exact ⟨0, rfl, rfl⟩
        · exact ⟨k + 1, hk, by rw [hnext clips k]⟩
      · rintro ⟨_ | k, hk, rfl⟩
        · cases hk
          exact .inl rfl
        · exact .inr ⟨k, hk, by rw [hnext clips k]⟩
    | tint color =>
      have htints : Definition.tints (.tint color :: rest) = color :: Definition.tints rest := rfl
      rw [named, List.mem_cons, ih, htints, List.filter_cons_of_neg Bool.false_ne_true,
        or_left_comm]
      refine or_congr_right ⟨?_, ?_⟩
      · rintro (heq | ⟨k, other, hk, rfl, rfl⟩)
        · cases heq
          exact ⟨0, color, rfl, rfl, rfl⟩
        · exact ⟨k + 1, other, hk, rfl, by rw [hnext tints k]⟩
      · rintro ⟨_ | k, other, hk, rfl, rfl⟩
        · cases hk
          exact .inl rfl
        · exact .inr ⟨k, other, hk, rfl, by rw [hnext tints k]⟩

theorem clipName_inj {start : String} {m n : Nat} :
    clipName start m = clipName start n ↔ m = n := by
  rw [clipName, clipName, String.append_right_inj]
  exact Nat.repr_inj

theorem tintName_inj {start : String} {m n : Nat} :
    tintName start m = tintName start n ↔ m = n := by
  rw [tintName, tintName, String.append_right_inj]
  exact Nat.repr_inj

theorem clipName_ne_tintName (start : String) (m n : Nat) :
    clipName start m ≠ tintName start n := by
  intro h
  have hlist := congrArg String.toList h
  simp [clipName, tintName] at hlist

/-- No two definitions have the same name. -/
theorem nodup_names (start : String) (clips tints : Nat) (defs : List Definition) :
    ((named start clips tints defs).map (·.1)).Nodup := by
  induction defs generalizing clips tints with
  | nil => exact List.nodup_nil
  | cons d rest ih =>
    cases d with
    | clip rect radius =>
      rw [named, List.map_cons, List.nodup_cons]
      refine ⟨fun hmem => ?_, ih _ _⟩
      obtain ⟨⟨name, d⟩, he, hname⟩ := List.mem_map.mp hmem
      obtain ⟨k, -, rfl⟩ | ⟨k, color, -, -, rfl⟩ := mem_named.mp he
      · have hnumber := clipName_inj.mp hname
        omega
      · exact clipName_ne_tintName start _ _ hname.symm
    | tint color =>
      rw [named, List.map_cons, List.nodup_cons]
      refine ⟨fun hmem => ?_, ih _ _⟩
      obtain ⟨⟨name, d⟩, he, hname⟩ := List.mem_map.mp hmem
      obtain ⟨k, -, rfl⟩ | ⟨k, other, -, -, rfl⟩ := mem_named.mp he
      · exact clipName_ne_tintName start _ _ hname
      · have hnumber := tintName_inj.mp hname
        omega

theorem isClipped_titled (name : String) (d : Definition) :
    ∀ t ∈ (titled name d).tags, isClipped t = false := by
  cases d <;> simp [titled, Element.tags, Element.tagsOf, isClipped, rectAttributes]

theorem ids_titled (name : String) (d : Definition) :
    (titled name d).tags.flatMap ids = [.word "id" name] := by
  cases d <;> simp [titled, Element.tags, Element.tagsOf, ids, rectAttributes]

end Definition

/-! ## Documents -/

namespace Document

variable (d : Document) (s : SvgSettings)

/-- The definitions of a document with their names. -/
def named : List (String × Definition) := Definition.named s.classStart 0 0 d.definitions

/-- What names the definitions. -/
def definitionIds : List Attribute := (d.named s).map fun e => .word "id" e.1

theorem flatMap_tags_definitionElements : (d.definitionElements s).flatMap (·.tags) =
    if d.named s = [] then []
    else ("defs", []) :: (d.named s).flatMap fun e => (Definition.titled e.1 e.2).tags := by
  rw [definitionElements, Definition.elements_eq_map_named]
  simp only [List.map_eq_nil_iff]
  rw [← named]
  split
  · rfl
  · rw [List.flatMap_singleton, Element.tags_group, List.flatMap_map]

/-- The head of a document names its definitions and refers to nothing. -/
theorem refers_head (i : Ink) : i.Refers [] (("svg", d.attributes s.padding) :: ("style", []) ::
    (d.definitionElements s).flatMap (·.tags)) [] (d.definitionIds s) [] := by
  have hattributes : ∀ t ∈ [("svg", d.attributes s.padding), ("style", [])], IsBare t := by
    simp [IsBare, attributes]
  have hdefinitions : i.Refers [] ((d.definitionElements s).flatMap (·.tags)) []
      (d.definitionIds s) [] := by
    rw [flatMap_tags_definitionElements, definitionIds]
    split
    · next hnone =>
      rw [hnone]
      exact Ink.refers_of_isBare (List.forall_mem_nil _) []
    · have hbare : ∀ t ∈ [("defs", ([] : List Attribute))], IsBare t := by simp [IsBare]
      have hnames : ((d.named s).flatMap fun e => (Definition.titled e.1 e.2).tags).flatMap ids =
          (d.named s).map fun e => .word "id" e.1 := by
        rw [List.flatMap_assoc, List.map_eq_flatMap]
        exact List.flatMap_congr fun e _ => Definition.ids_titled e.1 e.2
      have hclipped : ∀ t ∈ (d.named s).flatMap fun e => (Definition.titled e.1 e.2).tags,
          isClipped t = false := by
        intro t ht
        obtain ⟨e, -, ht⟩ := List.mem_flatMap.mp ht
        exact Definition.isClipped_titled e.1 e.2 t ht
      exact (Ink.refers_of_isBare (i := i) hbare []).append
        (hnames ▸ Ink.refers_of_isClipped_eq hclipped [])
  exact (Ink.refers_of_isBare (i := i) hattributes []).append hdefinitions

end Document

/-- A document names its definitions and the nodes that the drawing comes to, and it has an element
for everything that is clipped of them. -/
theorem refers_draw (s : SvgSettings) (t : Theme) (a : Appearance) (tree : LayoutTree) :
    Ink.Refers ⟨s, t.color "text-default" a, t.color "downloading-background" a⟩ []
      ((draw s t a tree).element s).tags (draw s t a tree).definitions
      ((draw s t a tree).definitionIds s ++ (metNode tree.root).filterMap mark?)
      ((metNode tree.root).flatMap clippings) := by
  let i : Ink := ⟨s, t.color "text-default" a, t.color "downloading-background" a⟩
  have hhead := (draw s t a tree).refers_head s i
  have hall := hhead.append (i.refers_drawNode tree.root [])
  rw [Document.element, Element.tags_group, List.flatMap_cons, List.flatMap_append]
  exact hall

end MessageCard.Svg
