import MessageCard.Proofs.Svg.Writing

/-!
# Documents are read back

A document is one outermost element with a style sheet, the definitions and the drawing inside.
When the style sheet and the names of definitions are plain and the elements of the drawing are
sound, the document is read back as this element, with or without a declaration and with or without
line breaks.
-/
namespace MessageCard.Svg

/-! ## Definitions -/

namespace Definition

/-- A definition with its name as an element. -/
def element (start : String) (number : Nat) : Definition → Element
  | .clip rect radius =>
    .group "clipPath" [.word "id" (clipName start number)]
      [.leaf "rect" (rectAttributes rect ++ [.number "rx" radius])]
  | .tint color =>
    .group "filter" [.word "id" (tintName start number)]
      [.leaf "feFlood" [.text "flood-color" color],
        .leaf "feComposite" [.word "in2" "SourceAlpha", .word "operator" "in"]]

/-- Definitions as elements, the first with the next free number of its kind. -/
def elements (start : String) : Nat → Nat → List Definition → List Element
  | _, _, [] => []
  | clips, tints, .clip rect radius :: rest =>
    element start (clips + 1) (.clip rect radius) :: elements start (clips + 1) tints rest
  | clips, tints, .tint color :: rest =>
    element start (tints + 1) (.tint color) :: elements start clips (tints + 1) rest

theorem writeDefinition_eq (start : String) (number : Nat) (d : Definition) :
    writeDefinition start number d = broken [] (lines 0 0 (d.element start number)) := by
  cases d <;> simp [writeDefinition, element, lines, linesOf, broken]

theorem writeDefinitions_eq (start : String) (clips tints : Nat) (defs : List Definition) :
    writeDefinitions start clips tints defs =
      (elements start clips tints defs).map fun e => broken [] (Svg.lines 0 0 e) := by
  induction defs generalizing clips tints with
  | nil => rfl
  | cons d rest ih =>
    cases d <;> rw [writeDefinitions, elements, List.map_cons, ih, writeDefinition_eq]

variable {start : String} (hstart : IsPlain start.toList)
include hstart

theorem isPlain_clipName (number : Nat) : IsPlain (clipName start number).toList := by
  rw [clipName, String.toList_append, String.toList_append]
  exact (hstart.append (by decide)).append (isPlain_toString number)

theorem isPlain_tintName (number : Nat) : IsPlain (tintName start number).toList := by
  rw [tintName, String.toList_append, String.toList_append]
  exact (hstart.append (by decide)).append (isPlain_toString number)

theorem isSound_element (number : Nat) (d : Definition) : (d.element start number).IsSound := by
  cases d with
  | clip rect radius =>
    have hname := areSound_word "id" (by decide) (isPlain_clipName hstart number)
    refine .group (by decide) (by decide) hname
      (List.forall_mem_singleton.mpr (.leaf (by decide) ?_))
    refine areSound_of_sublist ["x", "y", "width", "height", "rx"] (by decide) (.refl _) ?_
    simp [rectAttributes, Attribute.isEscaped_number]
  | tint color =>
    have hname := areSound_word "id" (by decide) (isPlain_tintName hstart number)
    refine .group (by decide) (by decide) hname ?_
    simp only [List.forall_mem_cons]
    refine ⟨.leaf (by decide) ?_, .leaf (by decide) ?_, by simp⟩
    · refine areSound_of_sublist ["flood-color"] (by decide) (.refl _) ?_
      simp [Attribute.isEscaped_text]
    · refine areSound_of_sublist ["in2", "operator"] (by decide) (.refl _) ?_
      simp only [List.forall_mem_cons]
      exact ⟨Attribute.isEscaped_word _ (by decide), Attribute.isEscaped_word _ (by decide),
        by simp⟩

theorem isSound_elements (clips tints : Nat) (defs : List Definition) :
    ∀ e ∈ elements start clips tints defs, e.IsSound := by
  induction defs generalizing clips tints with
  | nil => exact fun e he => absurd he List.not_mem_nil
  | cons d rest ih =>
    cases d <;> exact List.forall_mem_cons.mpr ⟨isSound_element hstart _ _, ih _ _⟩

end Definition

/-! ## Documents -/

namespace Document

variable (d : Document) (s : SvgSettings)

/-- The attributes of the outermost element. -/
def attributes (padding : Binary64) : List Attribute :=
  let origin : Binary64 := if padding = 0 then 0 else -padding
  let width := (d.width + 2 * padding).toPlain
  let height := (d.height + 2 * padding).toPlain
  [.word "xmlns" "http://www.w3.org/2000/svg", .word "width" width, .word "height" height,
    .word "viewBox" (" ".intercalate [origin.toPlain, origin.toPlain, width, height])]

/-- The style sheet with the blanks around it. -/
def styleText : List Char :=
  let space := List.replicate (s.indent.getD 0) ' '
  SvgSettings.lineBreak s ++ space ++ space ++ d.style ++ SvgSettings.lineBreak s ++ space

/-- The definitions as elements, in an element of their own unless there are none. -/
def definitionElements : List Element :=
  let es := Definition.elements s.classStart 0 0 d.definitions
  if es = [] then [] else [.group "defs" [] es]

/-- A document as an element. -/
def element : Element :=
  .group "svg" (d.attributes s.padding)
    (.text "style" [] (d.styleText s) :: (d.definitionElements s ++ d.elements))

theorem openingTag_eq (padding : Binary64) :
    d.openingTag padding = writeTag "svg" (d.attributes padding) ++ ['>'] := rfl

theorem areSound_attributes (padding : Binary64) : AreSound (d.attributes padding) := by
  refine areSound_of_sublist ["xmlns", "width", "height", "viewBox"] (by decide) (.refl _) ?_
  have hnumber := isPlain_toPlain
  simp only [attributes, List.forall_mem_cons]
  refine ⟨Attribute.isEscaped_word _ (by decide), Attribute.isEscaped_word _ (hnumber _),
    Attribute.isEscaped_word _ (hnumber _), Attribute.isEscaped_word _ ?_, by simp⟩
  exact isPlain_intercalate (by decide) (by simp [hnumber])

/-- The lines after the tag that opens a document. -/
def afterOpening : List (List Char) :=
  block (s.indent.getD 0) "style" [d.style] ++
    (block (s.indent.getD 0) "defs" (writeDefinitions s.classStart 0 0 d.definitions) ++
      (linesOf (s.indent.getD 0) 1 d.elements ++ [closingTag "svg"]))

/-- A document that is read back from what is written for it. -/
structure IsSound : Prop where
  isPlain_start : IsPlain s.classStart.toList
  isPlain_style : IsPlain d.style
  isSound_elements : ∀ e ∈ d.elements, e.IsSound

variable {d s}

theorem all_isWhite_lineBreak (s : SvgSettings) : (SvgSettings.lineBreak s).all isWhite := by
  unfold SvgSettings.lineBreak
  split <;> decide

/-- A block of the head, with what stands in it. -/
theorem broken_block (lineBreak : List Char) (indent : Nat) (tag : String)
    {entries : List (List Char)} (h : entries ≠ []) :
    broken lineBreak (block indent tag entries) =
      lineBreak ++ (List.replicate indent ' ' ++ (writeTag tag [] ++
        '>' :: ((broken (lineBreak ++ List.replicate indent ' ' ++ List.replicate indent ' ')
          entries ++ (lineBreak ++ List.replicate indent ' ')) ++ closingTag tag))) := by
  simp [block, h, broken, List.flatMap_map]

theorem isMarkup_style (h : d.IsSound s) :
    IsMarkup (broken (SvgSettings.lineBreak s) (block (s.indent.getD 0) "style" [d.style]))
      [(Element.text "style" [] (d.styleText s)).read] := by
  have hspace := all_isWhite_replicate (s.indent.getD 0)
  have hbreak := all_isWhite_lineBreak s
  have hplain : IsPlain (d.styleText s) := by
    have hplainSpace := isPlain_of_white hspace
    have hplainBreak := isPlain_of_white hbreak
    exact ((((hplainBreak.append hplainSpace).append hplainSpace).append h.isPlain_style).append
      hplainBreak).append hplainSpace
  have htext : IsMarkup (writeTag "style" [] ++
      '>' :: (escape (d.styleText s) ++ closingTag "style"))
      [⟨"style", [], .ofList (d.styleText s), []⟩] :=
    isMarkup_text (by decide) (by decide) areSound_nil
  rw [broken_block _ _ _ (List.cons_ne_nil _ _)]
  have hread : (decode? (d.styleText s)).getD [] = d.styleText s := by
    rw [decode?_eq_some_iff.mpr hplain.escape_eq.symm, Option.getD_some]
  rw [hplain.escape_eq] at htext
  rw [Element.read, hread]
  have hmarkup := (htext.white_append hspace).white_append hbreak
  simpa [styleText, broken] using hmarkup

theorem isMarkup_definitions (h : d.IsSound s) :
    IsMarkup (broken (SvgSettings.lineBreak s) (block (s.indent.getD 0) "defs"
      (writeDefinitions s.classStart 0 0 d.definitions)))
      ((d.definitionElements s).map (·.read)) := by
  have hspace := all_isWhite_replicate (s.indent.getD 0)
  have hbreak := all_isWhite_lineBreak s
  have hsound := Definition.isSound_elements h.isPlain_start 0 0 d.definitions
  rw [Definition.writeDefinitions_eq]
  simp only [definitionElements]
  generalize Definition.elements s.classStart 0 0 d.definitions = es at hsound
  by_cases hes : es = []
  · simp [hes, block, broken, isMarkup_nil]
  · rw [broken_block _ _ _ (by simpa using hes), if_neg hes]
    have hall : List.Forall₂ (fun l x => IsMarkup l [x])
        (es.map fun e => broken [] (Svg.lines 0 0 e)) (es.map (·.read)) := by
      rw [List.forall₂_map_left_iff, List.forall₂_map_right_iff, List.forall₂_same]
      exact fun e he => (hsound e he).isMarkup rfl 0 0
    have hinside := isMarkup_broken
      (all_isWhite_append (all_isWhite_append hbreak hspace) hspace) hall
    have hgroup : IsMarkup (writeTag "defs" [] ++ '>' :: (_ ++ closingTag "defs"))
        [⟨"defs", [], "", _⟩] :=
      (hinside.append_white (all_isWhite_append hbreak hspace)).group (by decide) (by decide)
        areSound_nil
    have hmarkup := (hgroup.white_append hspace).white_append hbreak
    simpa [Element.read, Element.readAll_eq_map] using hmarkup

/-- The document without the line before its outermost element. -/
theorem isMarkup_outermost (h : d.IsSound s) :
    IsMarkup (d.openingTag s.padding ++ broken (SvgSettings.lineBreak s) (d.afterOpening s))
      [(d.element s).read] := by
  have hbreak := all_isWhite_lineBreak s
  have hinside := (isMarkup_style h).append ((isMarkup_definitions h).append
    (isMarkup_linesOf hbreak (s.indent.getD 0) h.isSound_elements 1))
  have hgroup : IsMarkup (writeTag "svg" (d.attributes s.padding) ++
      '>' :: (_ ++ closingTag "svg")) [⟨"svg", (d.attributes s.padding).map (·.read), "", _⟩] :=
    (hinside.append_white hbreak).group (by decide) (by decide) (d.areSound_attributes s.padding)
  rw [openingTag_eq]
  simpa [element, afterOpening, Element.read, Element.readAll_eq_map, broken] using hgroup

theorem withoutDeclaration_openingTag (padding : Binary64) (rest : List Char) :
    withoutDeclaration (d.openingTag padding ++ rest) = d.openingTag padding ++ rest := by
  have hstart : ∃ more, d.openingTag padding ++ rest = '<' :: 's' :: more := ⟨_, rfl⟩
  obtain ⟨more, hmore⟩ := hstart
  rw [hmore]
  exact withoutDeclaration_of_ne (by decide) more

theorem lines_eq : d.lines s = (if s.declaration then [declarationLine] else []) ++
    d.openingTag s.padding :: d.afterOpening s := by
  rw [lines, afterOpening]
  rfl

/-- A sound document is read back. -/
theorem read?_text (h : d.IsSound s) : read? (d.text s) = some (d.element s).read := by
  have houtermost := isMarkup_outermost h
  refine read?_of_isMarkup ?_
  rw [text, lines_eq]
  cases s.declaration with
  | true =>
    rw [if_pos rfl, List.singleton_append, intercalate_eq_broken, broken_cons,
      withoutDeclaration_append]
    exact houtermost.white_append (all_isWhite_lineBreak s)
  | false =>
    rw [if_neg Bool.false_ne_true, List.nil_append, intercalate_eq_broken,
      withoutDeclaration_openingTag]
    exact houtermost

end Document

end MessageCard.Svg
