import Mathlib.Data.List.Permutation
import MessageCard.Proofs.Svg.Previews

/-!
# Themes in the style sheet

The style sheet has one property for each token of a theme. Token and color stand there as they are,
while everywhere else in a document a color is escaped. A reader takes the text of an element to end
where the next tag begins. So the style element has the style sheet as its text, without anything
left to decode, exactly when neither a token nor its color begins markup.
-/
namespace MessageCard

/-! ## Tokens -/

namespace Theme

/-- The tokens of a theme in the order in which they are written. -/
def tokens (t : Theme) : List String := t.colors.keys.mergeSort (fun a b => decide (a ≤ b))

variable {t : Theme} {token : String}

theorem mem_tokens_iff : token ∈ t.tokens ↔ (t.pair? token).isSome := by
  rw [tokens, List.mem_mergeSort, pair?, Table.isSome_find?_iff]

theorem nodup_keys_of_colorsOf? {v : Toml} {colors : Table String String}
    (h : colorsOf? v = some colors) : colors.keys.Nodup := by
  cases v with
  | table entries =>
    simp only [colorsOf?, Option.bind_eq_bind, Option.bind_eq_some_iff, Option.pure_def,
      Option.some.injEq] at h
    obtain ⟨pairs, -, rfl⟩ := h
    exact Table.nodup_keys_ofList pairs
  | string | integer | float | boolean | array => cases h

theorem nodup_keys_of_ofToml? {v : Toml} (h : ofToml? v = some t) : t.colors.keys.Nodup := by
  cases v with
  | table entries =>
    simp only [ofToml?, Option.bind_eq_bind, Option.bind_eq_some_iff, Option.pure_def,
      Option.some.injEq] at h
    obtain ⟨name, -, mode, -, colors, hcolors, standIn, -, rfl⟩ := h
    rw [partOr?] at hcolors
    split at hcolors
    · cases hcolors
      exact List.nodup_nil
    · exact nodup_keys_of_colorsOf? hcolors
  | string | integer | float | boolean | array => cases h

/-- A theme that is read has each of its tokens once. -/
theorem nodup_tokens_of_ofText? {text : String} (h : ofText? text = some t) : t.tokens.Nodup := by
  obtain ⟨v, -, hv⟩ := Option.bind_eq_some_iff.mp h
  exact ((List.mergeSort_perm _ _).nodup_iff).mpr (nodup_keys_of_ofToml? hv)

end Theme

namespace Svg

/-! ## Markup -/

/-- A text with a character that begins a tag or an entity. -/
def HasMarkup (s : List Char) : Prop := '<' ∈ s ∨ '&' ∈ s

instance (s : List Char) : Decidable (HasMarkup s) :=
  inferInstanceAs (Decidable ('<' ∈ s ∨ '&' ∈ s))

@[simp] theorem hasMarkup_append {s u : List Char} :
    HasMarkup (s ++ u) ↔ HasMarkup s ∨ HasMarkup u := by
  simp only [HasMarkup, List.mem_append]
  tauto

@[simp] theorem hasMarkup_flatMap {α : Type} {f : α → List Char} {xs : List α} :
    HasMarkup (xs.flatMap f) ↔ ∃ x ∈ xs, HasMarkup (f x) := by
  simp only [HasMarkup, List.mem_flatMap]
  grind

theorem not_hasMarkup_of_isPlain {s : List Char} (h : IsPlain s) : ¬ HasMarkup s := by
  rintro (hmem | hmem)
  · exact h _ hmem (by decide)
  · exact h _ hmem (by decide)

/-- The text of an element as a reader finds it: what stands before the next tag. -/
def textBeforeTag (rest : List Char) : List Char := rest.takeWhile (· ≠ '<')

theorem textBeforeTag_eq_iff {s rest : List Char} :
    textBeforeTag (s ++ '<' :: rest) = s ↔ '<' ∉ s := by
  constructor
  · intro h hmem
    rw [← h] at hmem
    have hother := List.mem_takeWhile_imp hmem
    simp at hother
  · intro h
    have hall : ∀ c ∈ s, decide (c ≠ '<') = true := by
      intro c hc
      simp only [decide_eq_true_eq]
      rintro rfl
      exact h hc
    rw [textBeforeTag, List.takeWhile_append_of_pos hall]
    simp

/-! ## The style sheet -/

variable (s : SvgSettings) (t : Theme) (a : Appearance)

/-- The property of a token. -/
def customProperty (token : String) : List Char :=
  "  --".toList ++ token.toList ++ ": ".toList ++ (t.color token a).toList ++ ";".toList ++
    SvgSettings.lineBreak s

/-- The beginning of a style sheet. -/
def sheetStart : List Char := ":root \x7b".toList ++ SvgSettings.lineBreak s

/-- The end of a style sheet, with the font of texts. -/
def sheetEnd : List Char :=
  "\x7d".toList ++ SvgSettings.lineBreak s ++ ".".toList ++ s.classStart.toList ++
    "text \x7b font-family: -apple-system, sans-serif; \x7d".toList

theorem styleSheet_eq :
    styleSheet s t a = sheetStart s ++ t.tokens.flatMap (customProperty s t a) ++ sheetEnd s := by
  rw [styleSheet]
  unfold sheetStart sheetEnd Theme.tokens customProperty
  simp only [String.toList_append, String.toList_join, List.flatMap_map, String.toList_ofList,
    List.append_assoc]

theorem hasMarkup_customProperty (token : String) :
    HasMarkup (customProperty s t a token) ↔
      HasMarkup token.toList ∨ HasMarkup (t.color token a).toList := by
  have hbreak := not_hasMarkup_of_isPlain (isPlain_of_white (Document.all_isWhite_lineBreak s))
  have hstart : ¬ HasMarkup "  --".toList := by decide
  have hcolon : ¬ HasMarkup ": ".toList := by decide
  have hend : ¬ HasMarkup ";".toList := by decide
  unfold customProperty
  simp only [hasMarkup_append, hbreak, hstart, hcolon, hend, or_false, false_or]

/-- All markup in the style sheet comes from the names of classes, from tokens and from their
colors. -/
theorem hasMarkup_styleSheet_iff :
    HasMarkup (styleSheet s t a) ↔ HasMarkup s.classStart.toList ∨
      ∃ token ∈ t.tokens, HasMarkup token.toList ∨ HasMarkup (t.color token a).toList := by
  have hbreak := not_hasMarkup_of_isPlain (isPlain_of_white (Document.all_isWhite_lineBreak s))
  have hroot : ¬ HasMarkup ":root \x7b".toList := by decide
  have hclose : ¬ HasMarkup "\x7d".toList := by decide
  have hdot : ¬ HasMarkup ".".toList := by decide
  have hfont : ¬ HasMarkup "text \x7b font-family: -apple-system, sans-serif; \x7d".toList :=
    not_hasMarkup_of_isPlain (by decide)
  rw [styleSheet_eq]
  unfold sheetStart sheetEnd
  simp only [hasMarkup_append, hasMarkup_flatMap, hasMarkup_customProperty, hbreak, hroot, hclose,
    hdot, hfont, or_false, false_or]
  exact or_comm

/-! ## The style element -/

namespace Document

variable (d : Document)

/-- What is written before the style element. -/
def beforeStyle : List Char :=
  (if s.declaration then declarationLine ++ SvgSettings.lineBreak s else []) ++
    d.openingTag s.padding ++ SvgSettings.lineBreak s ++ List.replicate (s.indent.getD 0) ' '

/-- A document has a style element with the style sheet inside. -/
theorem exists_text_eq : ∃ tail, d.text s =
    d.beforeStyle s ++ (writeTag "style" [] ++ '>' :: (d.styleText s ++
      '<' :: '/' :: ("style>".toList ++ tail))) := by
  obtain ⟨tail, htail⟩ : ∃ tail, broken (SvgSettings.lineBreak s) (d.afterOpening s) =
      SvgSettings.lineBreak s ++ (List.replicate (s.indent.getD 0) ' ' ++
        (writeTag "style" [] ++ '>' :: (d.styleText s ++
          '<' :: '/' :: ("style>".toList ++ tail)))) := by
    have hstyle : "style>".toList = "style".toList ++ ['>'] := rfl
    rw [afterOpening, broken_append, broken_block _ _ _ (List.cons_ne_nil _ _)]
    refine ⟨broken (SvgSettings.lineBreak s)
      (block (s.indent.getD 0) "defs" (writeDefinitions s.classStart 0 0 d.definitions) ++
        (linesOf (s.indent.getD 0) 1 d.elements ++ [closingTag "svg"])), ?_⟩
    simp only [hstyle, broken, List.flatMap_singleton, styleText, closingTag, List.append_assoc,
      List.cons_append, List.nil_append]
  refine ⟨tail, ?_⟩
  rw [text, lines_eq, beforeStyle]
  cases s.declaration with
  | true =>
    rw [if_pos rfl, if_pos rfl, List.singleton_append, intercalate_eq_broken, broken_cons, htail]
    simp only [List.append_assoc]
  | false =>
    rw [if_neg Bool.false_ne_true, if_neg Bool.false_ne_true, List.nil_append,
      intercalate_eq_broken, htail]
    simp only [List.append_assoc, List.nil_append]

theorem hasMarkup_styleText_iff : HasMarkup (d.styleText s) ↔ HasMarkup d.style := by
  have hbreak := not_hasMarkup_of_isPlain (isPlain_of_white (all_isWhite_lineBreak s))
  have hspace : ¬ HasMarkup (List.replicate (s.indent.getD 0) ' ') :=
    not_hasMarkup_of_isPlain (isPlain_of_white (all_isWhite_replicate _))
  simp only [styleText, hasMarkup_append, hbreak, hspace, or_false, false_or]

end Document

theorem style_draw (tree : LayoutTree) : (draw s t a tree).style = styleSheet s t a := by
  unfold draw
  rfl

/-- The style sheet of a theme that is read has one property for each token. It has a tag or an
entity exactly when the names of classes, a token or a color has one, and without one it is the
whole text of the style element. The elements of the drawing are escaped whatever the theme is. -/
theorem style_is_whole_iff {text : String} {t : Theme} (ht : Theme.ofText? text = some t)
    (s : SvgSettings) (a : Appearance) (tree : LayoutTree) :
    t.tokens.Nodup ∧ (∀ token, token ∈ t.tokens ↔ (t.pair? token).isSome) ∧
    (draw s t a tree).style =
      sheetStart s ++ t.tokens.flatMap (customProperty s t a) ++ sheetEnd s ∧
    (∃ content tail, content = (draw s t a tree).styleText s ∧
      (render s t a tree).toList = (draw s t a tree).beforeStyle s ++
        (writeTag "style" [] ++ '>' :: (content ++ '<' :: '/' :: ("style>".toList ++ tail))) ∧
      (textBeforeTag (content ++ '<' :: '/' :: ("style>".toList ++ tail)) = content ∧
          '&' ∉ content ↔
        ¬ HasMarkup s.classStart.toList ∧
          ∀ token ∈ t.tokens, ¬ HasMarkup token.toList ∧ ¬ HasMarkup (t.color token a).toList)) ∧
    (IsPlain s.classStart.toList → ∀ e ∈ (draw s t a tree).elements, e.IsSound) := by
  obtain ⟨tail, htail⟩ := (draw s t a tree).exists_text_eq s
  have hmarkup : HasMarkup ((draw s t a tree).styleText s) ↔ HasMarkup s.classStart.toList ∨
      ∃ token ∈ t.tokens, HasMarkup token.toList ∨ HasMarkup (t.color token a).toList := by
    rw [Document.hasMarkup_styleText_iff, style_draw, hasMarkup_styleSheet_iff]
  refine ⟨Theme.nodup_tokens_of_ofText? ht, fun token => Theme.mem_tokens_iff, ?_,
    ⟨_, tail, rfl, ?_, ?_⟩, fun hstart => isSound_drawNode hstart tree.root []⟩
  · rw [style_draw, styleSheet_eq]
  · rw [render, String.toList_ofList, htail]
  · rw [textBeforeTag_eq_iff, ← not_or, ← HasMarkup, hmarkup]
    simp only [not_or, not_exists, not_and]

/-- A color that closes the style element. -/
theorem style_is_not_whole_of_closing_color :
    let t : Theme := ⟨none, .adaptive, .ofList [("x", "</style>")], Theme.standard.standIn⟩
    let s : SvgSettings := { embed := fun _ => none }
    let d := draw s t .light (captioned "" "" "" "")
    Theme.ofText? "[\"colors\"]\n\"x\" = \"</style>\"\n" = some t ∧ t.tokens.Nodup ∧
      ∃ content tail, d.text s = d.beforeStyle s ++
          (writeTag "style" [] ++ '>' :: (content ++ '<' :: '/' :: ("style>".toList ++ tail))) ∧
        ¬ (textBeforeTag (content ++ '<' :: '/' :: ("style>".toList ++ tail)) = content ∧
          '&' ∉ content) := by
  intro t s d
  have hread : Toml.ofText? "[\"colors\"]\n\"x\" = \"</style>\"\n" =
      some (.table [("colors", .table [("x", .string "</style>")])]) := by cbv
  have ht : Theme.ofText? "[\"colors\"]\n\"x\" = \"</style>\"\n" = some t := by
    rw [Theme.ofText?, hread]
    rfl
  have hcolor : t.color "x" .light = "</style>" := by decide +kernel
  obtain ⟨hnodup, htokens, -, ⟨content, tail, -, htext, hwhole⟩, -⟩ :=
    style_is_whole_iff ht s .light (captioned "" "" "" "")
  rw [render, String.toList_ofList] at htext
  refine ⟨ht, hnodup, content, tail, htext, fun h => ?_⟩
  have hplain := ((hwhole.mp h).2 "x" ((htokens "x").mpr rfl)).2
  rw [hcolor] at hplain
  exact hplain (by decide)

end Svg
end MessageCard
