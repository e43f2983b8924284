import Mathlib.Algebra.Order.Ring.Rat
import Mathlib.Data.List.Chain
import Mathlib.Data.List.Forall2
import Mathlib.Data.Nat.Cast.Order.Ring
import MessageCard.Proofs.Text.Words
import MessageCard.Text.Wrapping

/-!
# Wrapped text

Wrapping puts the words of a paragraph on lines from left to right. Where longer texts are never
narrower, a word that fits on a line of its own is never broken, and the lines hold the words of
each paragraph in order. What is carried from word to word is that the lines so far hold the words
so far.
-/
namespace MessageCard

/-- Whether a text fits wherever one fits that is not shorter. -/
def FitsByLength (fits : List Char → Bool) : Prop :=
  ∀ s t : List Char, s.length ≤ t.length → fits s = false → fits t = false

/-- Rows of words that hold the given words. A row ends with a word, or with the first part of a
word that does not fit and whose other part begins the next row. -/
inductive IsLaid (fits : List Char → Bool) : List (List (List Char)) → List (List Char) → Prop
  | last (row : List (List Char)) : IsLaid fits [row] row
  | next (row : List (List Char)) {rows : List (List (List Char))} {ws : List (List Char)}
      (h : IsLaid fits rows ws) : IsLaid fits (row :: rows) (row ++ ws)
  | cut (row : List (List Char)) {first rest : List Char} {rows : List (List (List Char))}
      {ws : List (List Char)} (tooWide : fits (first ++ rest) = false)
      (h : IsLaid fits rows (rest :: ws)) :
      IsLaid fits ((row ++ [first]) :: rows) (row ++ (first ++ rest) :: ws)

/-- The lines of a paragraph: at least one, with all its letters and with its words in order, single
blanks between them. Only a word that does not fit on a line of its own is cut. -/
structure IsWrapped (fits : List Char → Bool) (paragraph : List Char) (lines : List (List Char)) :
    Prop where
  ne_nil : lines ≠ []
  letters_eq : letters lines.flatten = letters paragraph
  laid : IsLaid fits (lines.map words) (words paragraph)
  spaced : ∀ line ∈ lines, IsSpaced line

namespace IsLaid

variable {fits : List Char → Bool} {rows others : List (List (List Char))}
  {ws vs : List (List Char)}

theorem ne_nil (h : IsLaid fits rows ws) : rows ≠ [] := by
  cases h <;> simp

theorem append (h : IsLaid fits rows ws) (hothers : IsLaid fits others vs) :
    IsLaid fits (rows ++ others) (ws ++ vs) := by
  induction h with
  | last row => exact hothers.next row
  | next row _ ih =>
    rw [List.append_assoc]
    exact ih.next row
  | cut row tooWide _ ih =>
    rw [List.append_assoc]
    exact ih.cut row tooWide

/-- A word may be added to the last row. -/
theorem append_word {row : List (List Char)} (h : IsLaid fits (rows ++ [row]) ws)
    (w : List Char) : IsLaid fits (rows ++ [row ++ [w]]) (ws ++ [w]) := by
  induction rows generalizing ws with
  | nil =>
    cases h with
    | last => exact .last _
    | next _ h => exact absurd rfl h.ne_nil
    | cut _ _ h => exact absurd rfl h.ne_nil
  | cons first rest ih =>
    obtain ⟨next, others, hrest⟩ :=
      List.exists_cons_of_ne_nil (List.concat_ne_nil row rest)
    rw [List.cons_append, hrest] at h
    rw [hrest] at ih
    cases h with
    | next _ h =>
      rw [List.append_assoc]
      exact (ih h).next first
    | cut row tooWide h =>
      rw [List.append_assoc]
      exact (ih h).cut row tooWide

/-- No letter is lost on the way from words to rows. -/
theorem flatten_eq (h : IsLaid fits rows ws) : rows.flatten.flatten = ws.flatten := by
  induction h with
  | last row => simp
  | next row _ ih => simp [ih]
  | cut row _ _ ih => simpa using ih

/-- A word may stand in parts, one on each row, where every part with the next character does not
fit. -/
theorem of_parts (hfits : FitsByLength fits) {parts : List (List Char)} (hne : parts ≠ [])
    (hchain : parts.IsChain fun part next =>
      ∃ c more, next = c :: more ∧ fits (part ++ [c]) = false) :
    IsLaid fits (parts.map ([·])) [parts.flatten] := by
  induction parts with
  | nil => exact absurd rfl hne
  | cons part rest ih =>
    cases rest with
    | nil =>
      have hlaid : IsLaid fits [[part]] [part] := .last [part]
      simpa using hlaid
    | cons next others =>
      obtain ⟨⟨c, more, rfl, hwide⟩, htail⟩ := List.isChain_cons_cons.mp hchain
      have hrest := ih (List.cons_ne_nil _ _) htail
      have htooWide : fits (part ++ ((c :: more) :: others).flatten) = false :=
        hfits _ _ (by simp) hwide
      exact hrest.cut [] htooWide

end IsLaid

namespace Fill

variable {fits : List Char → Bool}

/-! ## Breaking a word -/

/-- Lines that were finished before stay as they are while characters are added. -/
theorem foldl_addChar (fits : List Char → Bool) (word : List Char) (f : Fill) :
    word.foldl (addChar fits) f =
      let broken := word.foldl (addChar fits) ⟨[], f.current⟩
      ⟨broken.finished ++ f.finished, broken.current⟩ := by
  induction word generalizing f with
  | nil => rfl
  | cons c rest ih =>
    simp only [List.foldl_cons]
    rw [ih (addChar fits f c), ih (addChar fits ⟨[], f.current⟩ c)]
    simp only [addChar]
    split <;> simp

/-- A text that was broken between characters: it has its parts, none of them empty, and each part
with the next character does not fit. -/
structure IsBroken (fits : List Char → Bool) (text : List Char) (f : Fill) : Prop where
  flatten_eq : f.lines.flatten = text
  finished_ne_nil : ∀ part ∈ f.finished, part ≠ []
  current_ne_nil : text ≠ [] → f.current ≠ []
  chain : f.lines.IsChain fun part next => ∃ c more, next = c :: more ∧ fits (part ++ [c]) = false

theorem lines_eq (f : Fill) : f.lines = f.finished.reverse ++ [f.current] := by
  simp [lines]

theorem isBroken_nil (fits : List Char → Bool) : IsBroken fits [] ⟨[], []⟩ where
  flatten_eq := rfl
  finished_ne_nil := by simp
  current_ne_nil h := absurd rfl h
  chain := .singleton []

theorem IsBroken.addChar {text : List Char} {f : Fill} (h : IsBroken fits text f) (c : Char) :
    IsBroken fits (text ++ [c]) (f.addChar fits c) := by
  obtain ⟨hflatten, hfinished, -, hchain⟩ := h
  rw [lines_eq] at hflatten hchain
  unfold Fill.addChar
  split
  · next hbreak =>
    simp only [Bool.and_eq_true, decide_eq_true_eq, Bool.not_eq_true'] at hbreak
    obtain ⟨hcurrent, hwide⟩ := hbreak
    have hlines : lines ⟨f.current :: f.finished, [c]⟩ =
        (f.finished.reverse ++ [f.current]) ++ [[c]] := by simp [lines]
    refine ⟨?_, List.forall_mem_cons.mpr ⟨hcurrent, hfinished⟩, by simp, ?_⟩
    · rw [hlines, List.flatten_concat, hflatten]
    · rw [hlines]
      refine List.isChain_append.mpr ⟨hchain, .singleton _, ?_⟩
      simpa using hwide
  · have hlines : lines ⟨f.finished, f.current ++ [c]⟩ =
        f.finished.reverse ++ [f.current ++ [c]] := by simp [lines]
    refine ⟨?_, hfinished, by simp, ?_⟩
    · rw [hlines, ← hflatten]
      simp
    · rw [hlines]
      obtain ⟨hbefore, -, hlast⟩ := List.isChain_append.mp hchain
      refine List.isChain_append.mpr ⟨hbefore, .singleton _, fun part hpart next hnext => ?_⟩
      obtain ⟨d, more, hcurrent, hwide⟩ := hlast part hpart f.current (by simp)
      obtain rfl : f.current ++ [c] = next := by simpa using hnext
      exact ⟨d, more ++ [c], by rw [hcurrent, List.cons_append], hwide⟩

theorem IsBroken.foldl {text : List Char} {f : Fill} (h : IsBroken fits text f)
    (word : List Char) : IsBroken fits (text ++ word) (word.foldl (Fill.addChar fits) f) := by
  induction word generalizing text f with
  | nil => simpa using h
  | cons c rest ih => simpa using ih (h.addChar c)

/-! ## Adding a word -/

/-- Lines in the making that hold some words. An empty line is there only before the first word. -/
structure Holds (fits : List Char → Bool) (ws : List (List Char)) (f : Fill) : Prop where
  laid : IsLaid fits (f.lines.map words) ws
  spaced : ∀ line ∈ f.lines, IsSpaced line
  start : f.current = [] → f.finished = [] ∧ ws = []

theorem holds_nil (fits : List Char → Bool) : Holds fits [] ⟨[], []⟩ where
  laid := .last []
  spaced := by simp [lines, isSpaced_nil]
  start _ := ⟨rfl, rfl⟩

/-- A word that is broken stands on lines of its own. -/
theorem holds_broken (hfits : FitsByLength fits) {w : List Char} (hw : IsWord w) :
    Holds fits [w] (w.foldl (Fill.addChar fits) ⟨[], []⟩) := by
  have hbroken := (isBroken_nil fits).foldl w
  rw [List.nil_append] at hbroken
  obtain ⟨hflatten, hfinished, hcurrent, hchain⟩ := hbroken
  generalize w.foldl (Fill.addChar fits) ⟨[], []⟩ = f at *
  have hparts : ∀ part ∈ f.lines, IsWord part := by
    intro part hpart
    refine ⟨?_, fun c hc => hw.not_blank c (hflatten ▸ List.mem_flatten_of_mem hpart hc)⟩
    rw [lines_eq, List.mem_append, List.mem_reverse, List.mem_singleton] at hpart
    rcases hpart with hpart | rfl
    · exact hfinished part hpart
    · exact hcurrent hw.ne_nil
  have hwords : f.lines.map words = f.lines.map ([·]) :=
    List.map_congr_left fun part hpart => words_of_isWord (hparts part hpart)
  refine ⟨?_, fun part hpart => isSpaced_of_isWord (hparts part hpart), fun hnil => ?_⟩
  · rw [hwords, ← hflatten]
    exact .of_parts hfits (by simp [lines_eq]) hchain
  · exact absurd hnil (hcurrent hw.ne_nil)

/-- Lines after finished ones hold the words of both. -/
theorem Holds.append {ws vs : List (List Char)} {f g : Fill} (h : Holds fits ws f)
    (hg : Holds fits vs g) (hne : g.current ≠ []) :
    Holds fits (ws ++ vs) ⟨g.finished ++ f.current :: f.finished, g.current⟩ := by
  have hlines : lines ⟨g.finished ++ f.current :: f.finished, g.current⟩ = f.lines ++ g.lines := by
    simp [lines]
  refine ⟨?_, ?_, fun hnil => absurd hnil hne⟩
  · rw [hlines, List.map_append]
    exact h.laid.append hg.laid
  · rw [hlines]
    exact List.forall_mem_append.mpr ⟨h.spaced, hg.spaced⟩

theorem Holds.addWord (hfits : FitsByLength fits) {ws : List (List Char)} {f : Fill}
    (h : Holds fits ws f) {w : List Char} (hw : IsWord w) :
    Holds fits (ws ++ [w]) (f.addWord fits w) := by
  have hbroken := holds_broken hfits hw
  by_cases hcurrent : f.current = []
  · obtain ⟨hfinished, rfl⟩ := h.start hcurrent
    obtain rfl : f = ⟨[], []⟩ := by
      cases f
      simp_all
    simp only [Fill.addWord, if_true, List.nil_append]
    split
    · refine ⟨?_, ?_, fun hnil => absurd hnil hw.ne_nil⟩
      · have hlaid : IsLaid fits [[w]] [w] := .last [w]
        simpa [lines, words_of_isWord hw] using hlaid
      · simpa [lines] using isSpaced_of_isWord hw
    · exact hbroken
  · simp only [Fill.addWord, if_neg hcurrent]
    split
    · have hlines : lines { f with current := f.current ++ ' ' :: w } =
          f.finished.reverse ++ [f.current ++ ' ' :: w] := by simp [lines]
      obtain ⟨hlaid, hspaced, -⟩ := h
      rw [lines_eq] at hlaid hspaced
      obtain ⟨hbefore, hlast⟩ := List.forall_mem_append.mp hspaced
      refine ⟨?_, ?_, by simp⟩
      · rw [hlines, List.map_append, List.map_singleton, words_append_word _ hw]
        rw [List.map_append, List.map_singleton] at hlaid
        exact hlaid.append_word w
      · rw [hlines]
        have hcurrentSpaced := hlast f.current List.mem_cons_self
        exact List.forall_mem_append.mpr
          ⟨hbefore, by simpa using hcurrentSpaced.append_word hcurrent hw⟩
    · rw [foldl_addChar]
      simp only [Fill.flush, if_neg hcurrent]
      refine h.append hbroken fun hnil => ?_
      have hstart := (hbroken.start hnil).2
      cases hstart

theorem holds_foldl (hfits : FitsByLength fits) {ws vs : List (List Char)} {f : Fill}
    (h : Holds fits ws f) (hvs : ∀ w ∈ vs, IsWord w) :
    Holds fits (ws ++ vs) (vs.foldl (Fill.addWord fits) f) := by
  induction vs generalizing ws f with
  | nil => simpa using h
  | cons w rest ih =>
    obtain ⟨hw, hrest⟩ := List.forall_mem_cons.mp hvs
    simpa using ih (h.addWord hfits hw) hrest

end Fill

/-! ## Paragraphs -/

/-- The lines of a paragraph hold it. -/
theorem isWrapped_wrapParagraph {fits : List Char → Bool} (hfits : FitsByLength fits)
    (paragraph : List Char) : IsWrapped fits paragraph (wrapParagraph fits paragraph) := by
  have hwords : ∀ w ∈ words paragraph, IsWord w := fun w hw => isWord_of_mem_words hw
  have hholds := Fill.holds_foldl hfits (Fill.holds_nil fits) hwords
  rw [List.nil_append] at hholds
  refine ⟨by simp [wrapParagraph, Fill.lines_eq], ?_, hholds.laid, hholds.spaced⟩
  have hletters := hholds.laid.flatten_eq
  rw [flatten_words, List.flatten_flatten, List.map_map] at hletters
  rw [letters_flatten, ← hletters]
  exact congrArg List.flatten (List.map_congr_left fun line _ => (flatten_words line).symm)

namespace TextMeasurer

variable (m : TextMeasurer) (font : Font)

/-- Whether a text in a font is at least as wide as any that has no more characters. -/
def GrowsWithLength : Prop :=
  ∀ s t : List Char, s.length ≤ t.length → m.lineWidth font s ≤ m.lineWidth font t

theorem GrowsWithLength.fitsByLength {m : TextMeasurer} {font : Font}
    (h : m.GrowsWithLength font) (width : Binary64) : FitsByLength (m.fits font width) := by
  intro s t hlength hwide
  simp only [fits, decide_eq_false_iff_not, Binary64.le_iff] at hwide ⊢
  exact fun ht => hwide (le_trans (h s t hlength : _ ≤ (m.lineWidth font t).value) ht)

theorem wrap_unlimited (width : Binary64) (text : List Char) :
    m.wrap font width 0 text =
      (paragraphs text).flatMap (wrapParagraph (m.fits font width)) := by
  rw [wrap, limitLines, if_pos (Or.inl rfl)]

/-- The lines of a text are those of its paragraphs in order. Each paragraph has at least one line
and all its letters, its words stand in order with single blanks between them, and a word is cut
only if it does not fit on a line of its own. -/
theorem wrap_keeps_text (hgrows : m.GrowsWithLength font) (width : Binary64) (text : List Char) :
    ∃ parts, m.wrap font width 0 text = parts.flatten ∧
      List.Forall₂ (IsWrapped (m.fits font width)) (paragraphs text) parts := by
  refine ⟨(paragraphs text).map (wrapParagraph (m.fits font width)), ?_, ?_⟩
  · rw [wrap_unlimited, List.flatMap_def]
  · rw [List.forall₂_map_right_iff, List.forall₂_same]
    exact fun paragraph _ => isWrapped_wrapParagraph (hgrows.fitsByLength width) paragraph

/-- The measurer for which every character is one wide. -/
def ruler : TextMeasurer where
  lineWidth _ line := ⟨line.length⟩
  lineHeight _ := 1

theorem growsWithLength_ruler (font : Font) : ruler.GrowsWithLength font := fun _ _ hlength =>
  Binary64.le_iff.mpr (Nat.cast_le.mpr hlength)

/-- Two paragraphs on lines of four characters, with a word of seven, blanks in a row and a narrow
word after the long one. -/
theorem wrap_keeps_text_of_long_word :
    ruler.GrowsWithLength ⟨14, .normal⟩ ∧ ∃ parts,
      ruler.wrap ⟨14, .normal⟩ 4 0 "ab  lengthy c\n d".toList = parts.flatten ∧
      List.Forall₂ (IsWrapped (ruler.fits ⟨14, .normal⟩ 4)) (paragraphs "ab  lengthy c\n d".toList)
        parts := by
  have hgrows := growsWithLength_ruler ⟨14, .normal⟩
  exact ⟨hgrows, wrap_keeps_text ruler ⟨14, .normal⟩ hgrows 4 "ab  lengthy c\n d".toList⟩

end TextMeasurer
end MessageCard
