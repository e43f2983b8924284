import MessageCard.Proofs.Svg.Documents
import MessageCard.Svg.Drawing

/-!
# Drawings are sound

Every element that is drawn for a layout is sound, whatever its strings are: what comes from the
layout is escaped, and everything else is plain as long as the names of classes are.
-/
namespace MessageCard.Svg

/-! ## The steps of a drawing -/

theorem drawNode_of_hidden (i : Ink) {n : LayoutNode} (h : n.hidden) (defs : List Definition) :
    drawNode i n defs = (i.outline n, defs) := by
  obtain ⟨id, path, content, frame, inner, style, action, hidden, children⟩ := n
  simp only at h
  rw [drawNode, if_pos h]

theorem drawNode_of_shown (i : Ink) {n : LayoutNode} (h : n.hidden = false)
    (defs : List Definition) :
    drawNode i n defs =
      let behind := i.background n defs
      let shown := drawContent i n.inner n.style.radius n.content behind.2
      let below := drawNodes i n.children shown.2
      (i.outline n ++ [.group "g" (i.groupAttributes n) (behind.1 ++ shown.1 ++ below.1)],
        below.2) := by
  obtain ⟨id, path, content, frame, inner, style, action, hidden, children⟩ := n
  simp only at h
  rw [drawNode, if_neg (by simp [h])]

theorem drawContent_carousel (i : Ink) (inner : Rect) (radius spacing scroll : Binary64)
    (pages : List (PageOf LayoutTree)) (defs : List Definition) :
    drawContent i inner radius (.carousel spacing scroll pages) defs =
      let clip := Definition.addClip defs inner 0
      let shown := drawPages i inner scroll pages clip.2
      ([.group "g" [i.clipPath clip.1] shown.1], shown.2) := by
  rw [drawContent]

/-- Whether a page is in sight. -/
def IsInSight (inner : Rect) (scroll offset width : Binary64) : Prop :=
  ¬ (inner.x + offset - scroll + width < inner.x ∨ inner.right < inner.x + offset - scroll)

instance (inner : Rect) (scroll offset width : Binary64) :
    Decidable (IsInSight inner scroll offset width) := inferInstanceAs (Decidable (¬ _))

theorem drawPages_of_inSight (i : Ink) {inner : Rect} {scroll offset : Binary64}
    (tree : LayoutTree) (h : IsInSight inner scroll offset tree.width)
    (rest : List (PageOf LayoutTree)) (defs : List Definition) :
    drawPages i inner scroll (⟨offset, some tree⟩ :: rest) defs =
      let page := drawNode i tree.root defs
      let pages := drawPages i inner scroll rest page.2
      (.group "g" [i.classes ["page"], Ink.translate (inner.x + offset - scroll) inner.y] page.1 ::
        pages.1, pages.2) := by
  obtain ⟨width, height, root⟩ := tree
  rw [drawPages, if_neg h]

theorem drawPages_of_not_inSight (i : Ink) {inner : Rect} {scroll offset : Binary64}
    (tree : LayoutTree) (h : ¬ IsInSight inner scroll offset tree.width)
    (rest : List (PageOf LayoutTree)) (defs : List Definition) :
    drawPages i inner scroll (⟨offset, some tree⟩ :: rest) defs =
      drawPages i inner scroll rest defs := by
  obtain ⟨width, height, root⟩ := tree
  rw [drawPages, if_pos (not_not.mp h)]

theorem drawPages_of_none (i : Ink) (inner : Rect) (scroll offset : Binary64)
    (rest : List (PageOf LayoutTree)) (defs : List Definition) :
    drawPages i inner scroll (⟨offset, none⟩ :: rest) defs =
      drawPages i inner scroll rest defs := by
  rw [drawPages]

theorem drawNodes_cons (i : Ink) (n : LayoutNode) (rest : List LayoutNode)
    (defs : List Definition) :
    drawNodes i (n :: rest) defs =
      let first := drawNode i n defs
      let others := drawNodes i rest first.2
      (first.1 ++ others.1, others.2) := by
  rw [drawNodes]

/-! ## Elements of one node -/

theorem isEscaped_rectAttributes (r : Rect) : ∀ a ∈ rectAttributes r, a.IsEscaped := by
  simp [rectAttributes, Attribute.isEscaped_number]

namespace Ink

@[simp] theorem name_classes (i : Ink) (names : List String) : (i.classes names).name = "class" :=
  rfl

@[simp] theorem name_clipPath (i : Ink) (number : Nat) : (i.clipPath number).name = "clip-path" :=
  rfl

@[simp] theorem name_filter (i : Ink) (number : Nat) : (i.filter number).name = "filter" := rfl

/-- The attributes of one line of a text. -/
def lineAttributes (i : Ink) (inner : Rect) (t : TextContent) (index : Nat) : List Attribute :=
  let lineHeight := inner.height / (t.lines.length : Binary64)
  let (x, anchor) := match t.align with
    | .left => (inner.x, "start")
    | .center => (inner.center.x, "middle")
    | .right => (inner.right, "end")
  [i.classes ("text" :: (if t.isButton then ["button"] else [])), .number "x" x,
    .number "y" (inner.y + lineHeight * ((index : Binary64) + 0.5)), .word "text-anchor" anchor,
    .word "dominant-baseline" "middle"] ++
    ([.text "fill" (t.color.getD i.text), .number "font-size" t.fontSize] ++
      (if t.weight = .bold then [.word "font-weight" "bold"] else []))

theorem textLines_eq (i : Ink) (inner : Rect) (t : TextContent) :
    i.textLines inner t = t.lines.zipIdx.map fun line =>
      .text "text" (i.lineAttributes inner t line.2) (escape line.1) := rfl

theorem isEscaped_translate (x y : Binary64) : (translate x y).IsEscaped := by
  refine Attribute.isEscaped_word _ ?_
  simp only [String.toList_append]
  exact ((((IsPlain.append (by decide) (isPlain_toPlain x)).append (by decide)).append
    (isPlain_toPlain y)).append (by decide))

theorem areEscaped_stroke (s : NodeStyle) : ∀ a ∈ stroke s, a.IsEscaped := by
  unfold stroke
  split
  · split
    · simp [Attribute.isEscaped_text, Attribute.isEscaped_number]
    · simp
  · simp

theorem names_stroke (s : NodeStyle) :
    ((stroke s).map (·.name)).Sublist ["stroke", "stroke-width"] := by
  unfold stroke
  split
  · split
    · exact .refl _
    · exact List.nil_sublist _
  · exact List.nil_sublist _

variable {i : Ink} (hstart : IsPlain i.settings.classStart.toList)
include hstart

theorem isEscaped_classes {names : List String} (h : ∀ name ∈ names, IsPlain name.toList) :
    (i.classes names).IsEscaped := by
  refine Attribute.isEscaped_word _ (isPlain_intercalate (by decide) fun p hp => ?_)
  obtain ⟨name, hname, rfl⟩ := List.mem_map.mp hp
  rw [String.toList_append]
  exact hstart.append (h name hname)

theorem isEscaped_clipPath (number : Nat) : (i.clipPath number).IsEscaped := by
  refine Attribute.isEscaped_word _ ?_
  rw [String.toList_append, String.toList_append]
  exact (IsPlain.append (by decide) (Definition.isPlain_clipName hstart number)).append (by decide)

theorem isEscaped_filter (number : Nat) : (i.filter number).IsEscaped := by
  refine Attribute.isEscaped_word _ ?_
  rw [String.toList_append, String.toList_append]
  exact (IsPlain.append (by decide) (Definition.isPlain_tintName hstart number)).append (by decide)

/-- A rectangle is sound when its fill and its stroke are escaped. -/
theorem isSound_rect (r : Rect) (radius : Binary64) {kind : String} (hkind : IsPlain kind.toList)
    {look : List Attribute}
    (hnames : (look.map (·.name)).Sublist ["fill", "stroke", "stroke-width"])
    (hlook : ∀ a ∈ look, a.IsEscaped) : (i.rect r radius kind look).IsSound := by
  have hclasses : (i.classes ["rect", kind]).IsEscaped :=
    isEscaped_classes hstart (by simp [hkind]; decide)
  have hradius : ((if 0 < radius then [Attribute.number "rx" radius] else []).map
      (·.name)).Sublist ["rx"] := by
    split
    · exact .refl _
    · exact List.nil_sublist _
  refine .leaf (by decide) (areSound_of_sublist ["class", "x", "y", "width", "height", "rx", "fill",
    "stroke", "stroke-width"] (by decide) ?_ ?_)
  · rw [List.map_append, List.map_append]
    exact ((List.Sublist.refl ["class", "x", "y", "width", "height"]).append hradius).append hnames
  · simp only [List.forall_mem_append, List.forall_mem_singleton]
    refine ⟨⟨⟨hclasses, isEscaped_rectAttributes r⟩, ?_⟩, hlook⟩
    split <;> simp [Attribute.isEscaped_number]

/-- A picture is sound whatever its source is. -/
theorem isSound_image (r : Rect) (source : String) {aspect : String}
    (haspect : IsPlain aspect.toList) {kinds : List String}
    (hkinds : ∀ kind ∈ kinds, IsPlain kind.toList) {look : List Attribute}
    (hnames : (look.map (·.name)).Sublist ["clip-path", "filter"])
    (hlook : ∀ a ∈ look, a.IsEscaped) : (i.image r source aspect kinds look).IsSound := by
  have hclasses : (i.classes ("image" :: kinds)).IsEscaped :=
    isEscaped_classes hstart (List.forall_mem_cons.mpr ⟨by decide, hkinds⟩)
  refine .leaf (by decide) (areSound_of_sublist ["class", "x", "y", "width", "height", "href",
    "preserveAspectRatio", "clip-path", "filter"] (by decide) ?_ ?_)
  · rw [List.map_append]
    exact (List.Sublist.refl
      ["class", "x", "y", "width", "height", "href", "preserveAspectRatio"]).append hnames
  · simp only [List.forall_mem_append, List.forall_mem_cons]
    exact ⟨⟨⟨⟨hclasses, by simp⟩, isEscaped_rectAttributes r⟩, Attribute.isEscaped_text _ _,
      Attribute.isEscaped_word _ haspect, by simp⟩, hlook⟩

theorem isSound_outline (n : LayoutNode) : ∀ e ∈ i.outline n, e.IsSound := by
  unfold outline
  split
  · refine List.forall_mem_singleton.mpr (isSound_rect hstart _ _ ?_ (.refl _) ?_)
    · split <;> decide
    · simp only [List.forall_mem_cons]
      exact ⟨Attribute.isEscaped_word _ (by decide), Attribute.isEscaped_word _ (by decide),
        Attribute.isEscaped_word _ (by decide), by simp⟩
  · simp

theorem isSound_backdrop (n : LayoutNode) : ∀ e ∈ i.backdrop n, e.IsSound := by
  have hstroke := areEscaped_stroke n.style
  have hnames := names_stroke n.style
  unfold backdrop
  dsimp only
  split
  · simp
  · refine List.forall_mem_singleton.mpr (isSound_rect hstart _ _ (by decide) ?_ ?_)
    · rw [List.map_cons]
      split <;> exact hnames.cons_cons "fill"
    · refine List.forall_mem_cons.mpr ⟨?_, hstroke⟩
      split
      · exact Attribute.isEscaped_text _ _
      · exact Attribute.isEscaped_word _ (by decide)

theorem isSound_background (n : LayoutNode) (defs : List Definition) :
    ∀ e ∈ (i.background n defs).1, e.IsSound := by
  unfold background
  split
  · exact isSound_backdrop hstart n
  · refine List.forall_mem_cons.mpr ⟨?_, isSound_backdrop hstart n⟩
    refine isSound_image hstart _ _ (by decide) (by decide)
      (List.sublist_append_left _ ["filter"]) ?_
    exact List.forall_mem_singleton.mpr (isEscaped_clipPath hstart _)

theorem areSound_lineAttributes (inner : Rect) (t : TextContent) (index : Nat) :
    AreSound (i.lineAttributes inner t index) := by
  have hclasses : (i.classes ("text" :: (if t.isButton then ["button"] else []))).IsEscaped := by
    refine isEscaped_classes hstart (List.forall_mem_cons.mpr ⟨by decide, ?_⟩)
    split <;> decide
  have hweight : ((if t.weight = .bold then [Attribute.word "font-weight" "bold"] else []).map
      (·.name)).Sublist ["font-weight"] := by
    split
    · exact .refl _
    · exact List.nil_sublist _
  refine areSound_of_sublist ["class", "x", "y", "text-anchor", "dominant-baseline", "fill",
    "font-size", "font-weight"] (by decide) ?_ ?_
  · exact (List.Sublist.refl ["class", "x", "y", "text-anchor", "dominant-baseline", "fill",
      "font-size"]).append hweight
  · simp only [lineAttributes, List.forall_mem_append, List.forall_mem_cons]
    refine ⟨⟨hclasses, Attribute.isEscaped_number _ _, Attribute.isEscaped_number _ _,
      Attribute.isEscaped_word _ ?_, Attribute.isEscaped_word _ (by decide), by simp⟩,
      ⟨Attribute.isEscaped_text _ _, Attribute.isEscaped_number _ _, by simp⟩, ?_⟩
    · cases t.align <;> simp only <;> decide
    · split
      · exact List.forall_mem_singleton.mpr (Attribute.isEscaped_word _ (by decide))
      · simp

theorem isSound_textLines (inner : Rect) (t : TextContent) :
    ∀ e ∈ i.textLines inner t, e.IsSound := by
  intro e he
  rw [textLines_eq] at he
  obtain ⟨⟨line, index⟩, -, rfl⟩ := List.mem_map.mp he
  exact .text line (by decide) (by decide) (areSound_lineAttributes hstart inner t index)

theorem isSound_spinner (inner : Rect) (color : String) : (i.spinner inner color).IsSound := by
  have hclasses : (i.classes ["spinner"]).IsEscaped := isEscaped_classes hstart (by decide)
  refine .leaf (by decide) (areSound_of_sublist ["class", "cx", "cy", "r", "fill", "stroke",
    "stroke-width", "stroke-dasharray"] (by decide) (.refl _) ?_)
  simp only [List.forall_mem_cons]
  refine ⟨hclasses, Attribute.isEscaped_number _ _, Attribute.isEscaped_number _ _,
    Attribute.isEscaped_number _ _, Attribute.isEscaped_word _ (by decide),
    Attribute.isEscaped_text _ _, Attribute.isEscaped_word _ (by decide),
    Attribute.isEscaped_word _ ?_, by simp⟩
  simp only [String.toList_append]
  exact ((isPlain_toPlain _).append (by decide)).append (isPlain_toPlain _)

theorem isSound_picture (inner : Rect) (radius : Binary64) (image : ImageContent)
    (defs : List Definition) : ∀ e ∈ (i.picture inner radius image defs).1, e.IsSound := by
  have haspect : IsPlain (aspect image.mode).toList := by
    cases image.mode <;> decide
  have hkinds : ∀ kind ∈ (if image.isButton then ["button"] else []), IsPlain kind.toList := by
    split <;> decide
  unfold picture
  split
  · exact List.forall_mem_singleton.mpr (isSound_spinner hstart _ _)
  · refine List.forall_mem_append.mpr ⟨?_, List.forall_mem_singleton.mpr ?_⟩
    · split
      · simp
      · refine List.forall_mem_singleton.mpr (isSound_rect hstart _ _ (by decide) ?_ ?_)
        · exact List.sublist_append_left ["fill"] ["stroke", "stroke-width"]
        · exact List.forall_mem_singleton.mpr (Attribute.isEscaped_text _ _)
    · refine isSound_image hstart _ _ haspect hkinds ?_ (List.forall_mem_cons.mpr
        ⟨isEscaped_clipPath hstart _, ?_⟩)
      · cases image.tint with
        | none => exact List.sublist_append_left ["clip-path"] ["filter"]
        | some color => exact .refl _
      · cases image.tint with
        | none => simp
        | some color => exact List.forall_mem_singleton.mpr (isEscaped_filter hstart _)

theorem areSound_groupAttributes (n : LayoutNode) : AreSound (i.groupAttributes n) := by
  have hkind : IsPlain (kind n.content).toList := by
    cases n.content <;> simp only [kind] <;> decide
  refine areSound_of_sublist ["id", "class"] (by decide) (.refl _) ?_
  simp only [groupAttributes, List.forall_mem_cons]
  refine ⟨Attribute.isEscaped_text _ _, isEscaped_classes hstart ?_, by simp⟩
  refine List.forall_mem_cons.mpr ⟨hkind, ?_⟩
  split <;> decide

end Ink

variable {i : Ink}

mutual

/-- Every element of a node is sound. -/
theorem isSound_drawNode (hstart : IsPlain i.settings.classStart.toList) :
    ∀ (n : LayoutNode) (defs : List Definition), ∀ e ∈ (drawNode i n defs).1, e.IsSound
  | ⟨id, path, content, frame, inner, style, action, hidden, children⟩, defs => by
    cases hidden with
    | true =>
      rw [drawNode_of_hidden i rfl]
      exact Ink.isSound_outline hstart _
    | false =>
      rw [drawNode_of_shown i rfl]
      refine List.forall_mem_append.mpr ⟨Ink.isSound_outline hstart _, List.forall_mem_singleton.mpr
        (.group (by decide) (by decide) (Ink.areSound_groupAttributes hstart _) ?_)⟩
      rw [List.forall_mem_append, List.forall_mem_append]
      exact ⟨⟨Ink.isSound_background hstart _ _, isSound_drawContent hstart _ _ content _⟩,
        isSound_drawNodes hstart children _⟩

theorem isSound_drawContent (hstart : IsPlain i.settings.classStart.toList) (inner : Rect)
    (radius : Binary64) : ∀ (content : ContentOf (LayoutOf LayoutNode)) (defs : List Definition),
      ∀ e ∈ (drawContent i inner radius content defs).1, e.IsSound
  | .root, defs => by simp [drawContent]
  | .box _, defs => by simp [drawContent]
  | .text t, defs => by
    rw [drawContent]
    exact Ink.isSound_textLines hstart inner t
  | .image image, defs => by
    rw [drawContent]
    exact Ink.isSound_picture hstart inner radius image defs
  | .carousel spacing scroll pages, defs => by
    rw [drawContent_carousel]
    refine List.forall_mem_singleton.mpr (.group (by decide) (by decide) ?_
      (isSound_drawPages hstart inner scroll pages _))
    refine areSound_of_sublist ["clip-path"] (by decide) (.refl _) ?_
    exact List.forall_mem_singleton.mpr (Ink.isEscaped_clipPath hstart _)

theorem isSound_drawPages (hstart : IsPlain i.settings.classStart.toList) (inner : Rect)
    (scroll : Binary64) : ∀ (pages : List (PageOf (LayoutOf LayoutNode))) (defs : List Definition),
      ∀ e ∈ (drawPages i inner scroll pages defs).1, e.IsSound
  | [], defs => by simp [drawPages]
  | ⟨offset, none⟩ :: rest, defs => by
    rw [drawPages_of_none]
    exact isSound_drawPages hstart inner scroll rest defs
  | ⟨offset, some ⟨width, height, root⟩⟩ :: rest, defs => by
    by_cases hsight : IsInSight inner scroll offset width
    · rw [drawPages_of_inSight i ⟨width, height, root⟩ hsight]
      refine List.forall_mem_cons.mpr ⟨.group (by decide) (by decide) ?_
        (isSound_drawNode hstart root defs), isSound_drawPages hstart inner scroll rest _⟩
      refine areSound_of_sublist ["class", "transform"] (by decide) (.refl _) ?_
      simp only [List.forall_mem_cons]
      exact ⟨Ink.isEscaped_classes hstart (by decide), Ink.isEscaped_translate _ _, by simp⟩
    · rw [drawPages_of_not_inSight i ⟨width, height, root⟩ hsight]
      exact isSound_drawPages hstart inner scroll rest defs

theorem isSound_drawNodes (hstart : IsPlain i.settings.classStart.toList) :
    ∀ (ns : List LayoutNode) (defs : List Definition), ∀ e ∈ (drawNodes i ns defs).1, e.IsSound
  | [], defs => by simp [drawNodes]
  | n :: rest, defs => by
    rw [drawNodes_cons]
    exact List.forall_mem_append.mpr
      ⟨isSound_drawNode hstart n defs, isSound_drawNodes hstart rest _⟩

end

end MessageCard.Svg
