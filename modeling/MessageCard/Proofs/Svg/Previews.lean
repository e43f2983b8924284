import MessageCard.Proofs.ColorPair
import MessageCard.Proofs.Svg.Skeleton

/-!
# Previews are well-formed

The style sheet is written as it is. It is plain when the theme and the names of classes are,
because a color is a part of the pair that it is taken from. Then the document is read back: it has
the strings of the layout, and apart from them it is the same document for every layout of that
shape.
-/
namespace MessageCard

/-! ## Themes -/

/-- A theme whose tokens and colors have no characters that mean something in XML. -/
def Theme.IsPlain (t : Theme) : Prop :=
  ∀ e ∈ t.colors.entries, Svg.IsPlain e.1.toList ∧ Svg.IsPlain e.2.toList

instance (t : Theme) : Decidable t.IsPlain :=
  inferInstanceAs (Decidable (∀ e ∈ t.colors.entries, _))

namespace Svg

theorem isPlain_standard : Theme.standard.IsPlain := by
  decide

/-- The color of a token is plain, wherever it is taken from. -/
theorem isPlain_color {t : Theme} (h : t.IsPlain) (token : String) (a : Appearance) :
    IsPlain (t.color token a).toList := by
  rcases t.color_cases token a with ⟨source, pair, hsource, hpair, hfirst, hcolor⟩ | hcolor
  · have hplain : source.IsPlain := by
      rcases hsource with rfl | rfl
      · exact h
      · exact isPlain_standard
    rw [hcolor, String.toList_ofList]
    exact (hplain _ (Table.mem_of_find? hpair)).2.of_subset
      (ColorPair.isColorOf_chosen hfirst t.mode a).subset
  · rw [hcolor]
    decide

/-- The style sheet is plain. -/
theorem isPlain_styleSheet {s : SvgSettings} {t : Theme} (hstart : IsPlain s.classStart.toList)
    (ht : t.IsPlain) (a : Appearance) : IsPlain (styleSheet s t a) := by
  have hbreak : IsPlain (String.ofList (SvgSettings.lineBreak s)).toList := by
    rw [String.toList_ofList]
    exact isPlain_of_white (Document.all_isWhite_lineBreak s)
  have hproperty : ∀ token ∈ t.colors.keys.mergeSort (fun a b => decide (a ≤ b)),
      IsPlain ("  --".toList ++ token.toList ++ ": ".toList ++ (t.color token a).toList ++
        ";".toList ++ (String.ofList (SvgSettings.lineBreak s)).toList) := by
    intro token hmem
    obtain ⟨e, he, rfl⟩ := List.mem_map.mp (List.mem_mergeSort.mp hmem)
    simp only [isPlain_append]
    exact ⟨⟨⟨⟨⟨by decide, (ht e he).1⟩, by decide⟩, isPlain_color ht e.1 a⟩, by decide⟩, hbreak⟩
  rw [styleSheet]
  simp only [String.toList_append, String.toList_join, isPlain_append, List.flatMap_map]
  refine ⟨⟨⟨⟨⟨⟨⟨by decide, hbreak⟩, ?_⟩, by decide⟩, hbreak⟩, by decide⟩, hstart⟩, by decide⟩
  intro c hc
  obtain ⟨token, hmem, hc⟩ := List.mem_flatMap.mp hc
  exact hproperty token hmem c hc

theorem isSound_draw {s : SvgSettings} {t : Theme} (hstart : IsPlain s.classStart.toList)
    (ht : t.IsPlain) (a : Appearance) (tree : LayoutTree) : (draw s t a tree).IsSound s where
  isPlain_start := hstart
  isPlain_style := isPlain_styleSheet hstart ht a
  isSound_elements := isSound_drawNode hstart tree.root []

/-- Every preview is a well-formed document, whatever strings its layout has. It is read back as an
outermost element with all the strings as the layout has them, in the order of the drawing. Every
layout that differs in its strings alone, with a spinner still a spinner and equal tints still
equal, has a document that differs in these strings alone. Control characters in a string, which XML
leaves out for the most part, are read back like any others. -/
theorem preview_is_well_formed (s : SvgSettings) (t : Theme) (a : Appearance) (tree : LayoutTree)
    (hstart : IsPlain s.classStart.toList) (ht : t.IsPlain) :
    ∃ x, read? (render s t a tree).toList = some x ∧
      x.inscriptions =
        Ink.inscriptions ⟨s, t.color "text-default" a, t.color "downloading-background" a⟩ tree ∧
      ∀ (other : LayoutTree) (f g : String → String), Function.Injective f →
        Function.Injective g → blank g other = blank f tree →
        ∃ y, read? (render s t a other).toList = some y ∧ y.skeleton = x.skeleton := by
  have hread : ∀ tree, read? (render s t a tree).toList =
      some ((draw s t a tree).element s).read := by
    intro tree
    rw [render, String.toList_ofList]
    exact Document.read?_text (isSound_draw hstart ht a tree)
  refine ⟨_, hread tree, inscriptions_draw s t a tree, fun other f g hf hg hblank => ?_⟩
  refine ⟨_, hread other, ?_⟩
  have hother := skeleton_draw_blank hg s t a other
  have htree := skeleton_draw_blank hf s t a tree
  rw [hblank] at hother
  exact hother.symm.trans htree

/-- A layout with a text and a tinted image below each other. -/
def captioned (path text url tint : String) : LayoutTree :=
  let frame : Rect := ⟨0, 0, 100, 40⟩
  let plain : NodeStyle := ⟨none, none, 0, none, 0⟩
  ⟨100, 40, ⟨0, "body", .root, frame, frame, plain, none, false,
    [⟨1, path, .text ⟨text, [text.toList], 14, .normal, none, .left, 0, false⟩, frame, frame, plain,
        none, false, []⟩,
      ⟨2, path, .image ⟨url, .aspectFit, some tint, false, none, none⟩, frame, frame, plain, none,
        false, []⟩]⟩⟩

/-- A caption that looks like markup, with quotes in its path and its tint, comes back letter for
letter, in a document of the same shape as that of an empty caption. -/
theorem preview_of_markup_in_strings :
    ∃ x y, read? (render { embed := fun _ => none } Theme.standard .light
        (captioned "body[\"0\"]" "</text><script>" "a?b&c='d'" "red\"/>")).toList = some x ∧
      x.inscriptions = [.attribute "feFlood" "flood-color" "red\"/>",
        .attribute "g" "id" "body", .attribute "g" "id" "body[\"0\"]",
        .attribute "text" "fill" "#212121", .text "</text><script>",
        .attribute "g" "id" "body[\"0\"]", .attribute "rect" "fill" "#eeeeee",
        .attribute "image" "href" "a?b&c='d'"] ∧
      read? (render { embed := fun _ => none } Theme.standard .light
        (captioned "" "" "" "red\"/>")).toList = some y ∧ y.skeleton = x.skeleton := by
  obtain ⟨x, hx, hstrings, hlike⟩ := preview_is_well_formed { embed := fun _ => none }
    Theme.standard .light (captioned "body[\"0\"]" "</text><script>" "a?b&c='d'" "red\"/>")
    (by decide) (by decide)
  obtain ⟨y, hy, hskeleton⟩ := hlike (captioned "" "" "" "red\"/>") id id Function.injective_id
    Function.injective_id rfl
  refine ⟨x, y, hx, hstrings.trans ?_, hy, hskeleton⟩
  decide

end Svg
end MessageCard
