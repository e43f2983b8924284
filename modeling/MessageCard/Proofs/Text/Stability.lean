import MessageCard.Proofs.Text.Widening

/-!
# Wrapping again changes nothing

The width of a text on a single line is enough for each of its paragraphs: there it becomes one line.
And what wrapping makes stands as it is. Every line has single blanks between its words and fits, or
is too short to be broken, also the one that was cut and ends with an ellipsis. So the lines taken
for paragraphs are wrapped to themselves, and the limit finds nothing more to leave out.
-/
namespace MessageCard

variable {fits : List Char → Bool}

theorem FitsByLength.fits_of_le (hfits : FitsByLength fits) {s t : List Char}
    (hlength : s.length ≤ t.length) (ht : fits t = true) : fits s = true := by
  by_contra hs
  have hwide := hfits s t hlength (by simpa using hs)
  exact absurd (ht.symm.trans hwide) (by simp)

/-! ## Paragraphs that take one line -/

/-- Where there is room for all of them, words stay on the line. -/
theorem Fill.foldl_addWord_of_room {ws : List (List Char)} (hws : ∀ w ∈ ws, w ≠ [])
    (h : ∀ s : List Char, s.length ≤ ([' '].intercalate ws).length → fits s = true) :
    ws.foldl (Fill.addWord fits) ⟨[], []⟩ = ⟨[], [' '].intercalate ws⟩ := by
  induction ws using List.reverseRecOn with
  | nil => rfl
  | append_singleton ws w ih =>
    obtain ⟨hbefore, -⟩ := List.forall_mem_append.mp hws
    have hjoined : Fill.joined ⟨[], [' '].intercalate ws⟩ w = [' '].intercalate (ws ++ [w]) := by
      cases ws with
      | nil => simp [Fill.joined]
      | cons v rest =>
        have hne : [' '].intercalate (v :: rest) ≠ [] := by
          have hv := hbefore v List.mem_cons_self
          cases rest with
          | nil => simpa using hv
          | cons u rest => simp [List.intercalate_cons_cons]
        rw [Fill.joined, if_neg hne, intercalate_concat _ _ (List.cons_ne_nil _ _),
          List.singleton_append]
    have hlength : ([' '].intercalate ws).length ≤ ([' '].intercalate (ws ++ [w])).length := by
      by_cases hnil : ws = []
      · simp [hnil]
      · rw [intercalate_concat _ _ hnil, List.length_append]
        exact Nat.le_add_right _ _
    rw [List.foldl_concat, ih hbefore fun s hs => h s (hs.trans hlength), Fill.addWord_eq, hjoined,
      if_pos (h _ le_rfl)]

/-- A paragraph whose words have room on one line takes one. -/
theorem wrapParagraph_of_room {paragraph : List Char} (h : ∀ s : List Char,
      s.length ≤ ([' '].intercalate (words paragraph)).length → fits s = true) :
    wrapParagraph fits paragraph = [[' '].intercalate (words paragraph)] := by
  have hwords : ∀ w ∈ words paragraph, w ≠ [] := fun w hw => (isWord_of_mem_words hw).ne_nil
  rw [wrapParagraph, Fill.foldl_addWord_of_room hwords h]
  rfl

/-! ## Lines that stand -/

/-- Whether a text is a line that stands as it is: with single blanks between its words, and it fits
or is too short to be broken. -/
structure StandsAlone (fits : List Char → Bool) (line : List Char) : Prop where
  spaced : IsSpaced line
  fitsOrShort : Fill.FitsOrShort fits line

theorem words_singleton_of_isSpaced {c : Char} (h : IsSpaced [c]) : words [c] = [[c]] := by
  cases hblank : isBlank c with
  | false => exact words_of_isWord ⟨List.cons_ne_nil _ _, by simpa using hblank⟩
  | true =>
    have hwords : words [c] = [] := by simp [words, splitWhen, hblank]
    rw [IsSpaced, hwords] at h
    exact absurd h (by simp)

/-- A line that stands is a paragraph of one line. -/
theorem StandsAlone.wrapParagraph_eq (hfits : FitsByLength fits) {line : List Char}
    (h : StandsAlone fits line) : wrapParagraph fits line = [line] := by
  obtain ⟨hspaced, hline⟩ := h
  by_cases hfit : fits line = true
  · have hroom := wrapParagraph_of_room fun s hs =>
      hfits.fits_of_le (hs.trans_eq (congrArg List.length hspaced)) hfit
    rwa [hspaced] at hroom
  · match line, hline.resolve_right hfit with
    | [], _ => rfl
    | [c], _ =>
      rw [wrapParagraph, words_singleton_of_isSpaced hspaced]
      simp [Fill.addWord, Fill.lines, Fill.flush, Fill.addChar]

theorem standsAlone_of_mem_wrapParagraph (hfits : FitsByLength fits) {paragraph line : List Char}
    (h : line ∈ wrapParagraph fits paragraph) : StandsAlone fits line where
  spaced := (isWrapped_wrapParagraph hfits paragraph).spaced line h
  fitsOrShort := fitsOrShort_wrapParagraph fits paragraph line h

/-! ## The line that was cut -/

/-- A start of words in a row that does not end with a blank is words in a row. -/
theorem exists_words_of_prefix {ws : List (List Char)} (hws : ∀ w ∈ ws, IsWord w)
    {kept : List Char} (hpre : kept <+: [' '].intercalate ws) {c : Char}
    (hlast : kept.getLast? = some c) (hc : isBlank c = false) :
    ∃ before last, kept = [' '].intercalate (before ++ [last]) ∧
      ∀ w ∈ before ++ [last], IsWord w := by
  induction ws generalizing kept with
  | nil =>
    rw [List.intercalate_nil, List.prefix_nil] at hpre
    simp [hpre] at hlast
  | cons w rest ih =>
    obtain ⟨hw, hrest⟩ := List.forall_mem_cons.mp hws
    have hstart : kept <+: w → ∃ before last, kept = [' '].intercalate (before ++ [last]) ∧
        ∀ w ∈ before ++ [last], IsWord w := by
      intro h
      have hkept : IsWord kept :=
        ⟨fun hnil => by simp [hnil] at hlast, fun d hd => hw.not_blank d (h.subset hd)⟩
      exact ⟨[], kept, by simp, by simpa using hkept⟩
    cases rest with
    | nil => exact hstart (by simpa using hpre)
    | cons v rest =>
      rw [List.intercalate_cons_cons, List.append_assoc, List.singleton_append] at hpre
      rcases List.prefix_or_prefix_of_prefix hpre (List.prefix_append w _) with h | ⟨t, rfl⟩
      · exact hstart h
      -- What is kept goes on after the word, with a blank and some of the other words.
      · rw [List.prefix_append_right_inj] at hpre
        rcases t with - | ⟨d, t⟩
        · exact hstart (by simp)
        · obtain ⟨rfl, htail⟩ := List.cons_prefix_cons.mp hpre
          rcases t with - | ⟨e, t⟩
          · rw [List.getLast?_append_cons, List.getLast?_singleton, Option.some.injEq] at hlast
            subst hlast
            exact absurd hc (by decide)
          · rw [List.getLast?_append_cons, List.getLast?_cons_cons] at hlast
            obtain ⟨before, last, heq, hwords⟩ := ih hrest htail hlast
            refine ⟨w :: before, last, ?_, List.forall_mem_cons.mpr ⟨hw, hwords⟩⟩
            obtain ⟨u, others, hothers⟩ :=
              List.exists_cons_of_ne_nil (List.concat_ne_nil last before)
            rw [heq, List.cons_append, hothers, List.intercalate_cons_cons, List.append_assoc,
              List.singleton_append]

/-- A line that was cut stands with the ellipsis after it. -/
theorem IsCutTo.standsAlone {line kept : List Char} (h : IsCutTo fits line kept)
    (hline : IsSpaced line) : StandsAlone fits (kept ++ ['…']) := by
  obtain ⟨hpre, htrimmed, hfits, -⟩ := h
  have hellipsis : isBlank '…' = false := by decide
  rcases List.eq_nil_or_concat' kept with rfl | ⟨start, c, rfl⟩
  · refine ⟨isSpaced_of_isWord ⟨by simp, ?_⟩, .inl (by simp)⟩
    simpa using hellipsis
  · refine ⟨?_, .inr (hfits.resolve_left (by simp))⟩
    have hc : isBlank c = false := by
      have hlast := List.rdropWhile_eq_self_iff.mp htrimmed (by simp)
      simpa using hlast
    rw [← hline] at hpre
    obtain ⟨before, last, heq, hwords⟩ := exists_words_of_prefix
      (fun w hw => isWord_of_mem_words hw) hpre List.getLast?_concat hc
    obtain ⟨hbefore, hlast⟩ := List.forall_mem_append.mp hwords
    rw [List.forall_mem_singleton] at hlast
    have hword : IsWord (last ++ ['…']) := by
      refine ⟨by simp, fun d hd => ?_⟩
      rcases List.mem_append.mp hd with hd | hd
      · exact hlast.not_blank d hd
      · exact List.mem_singleton.mp hd ▸ hellipsis
    have hjoined : [' '].intercalate (before ++ [last]) ++ ['…'] =
        [' '].intercalate (before ++ [last ++ ['…']]) := by
      by_cases hnil : before = []
      · simp [hnil]
      · simp [intercalate_concat _ _ hnil]
    rw [heq, hjoined]
    exact isSpaced_intercalate
      (List.forall_mem_append.mpr ⟨hbefore, List.forall_mem_singleton.mpr hword⟩)

namespace TextMeasurer

variable (m : TextMeasurer) (font : Font)

/-- At the natural width of a text all its paragraphs fit. -/
theorem fits_of_naturalWidth_le {width : Binary64} {text paragraph : List Char}
    (hwidth : m.naturalWidth font text ≤ width) (h : paragraph ∈ paragraphs text) :
    m.fits font width paragraph = true := by
  have hnatural : m.lineWidth font paragraph ≤ m.naturalWidth font text :=
    Binary64.le_maximum (List.mem_map_of_mem h)
  simpa [fits] using Binary64.le_iff.mpr (le_trans hnatural hwidth)

/-- A text that is given its natural width has one line for each paragraph. -/
theorem wrap_of_naturalWidth_le {m : TextMeasurer} {font : Font} (hgrows : m.GrowsWithLength font)
    {width : Binary64} {text : List Char} (hwidth : m.naturalWidth font text ≤ width) :
    m.wrap font width 0 text =
      (paragraphs text).map fun paragraph => [' '].intercalate (words paragraph) := by
  rw [wrap_unlimited, List.map_eq_flatMap]
  refine List.flatMap_congr fun paragraph hparagraph => wrapParagraph_of_room fun s hs => ?_
  exact (hgrows.fitsByLength width).fits_of_le (hs.trans (length_intercalate_words_le paragraph))
    (fits_of_naturalWidth_le m font hwidth hparagraph)

/-- Every line of a wrapped text stands. -/
theorem standsAlone_of_mem_wrap {m : TextMeasurer} {font : Font} (hgrows : m.GrowsWithLength font)
    (width : Binary64) (limit : Nat) (text : List Char) :
    ∀ line ∈ m.wrap font width limit text, StandsAlone (m.fits font width) line := by
  have hfits := hgrows.fitsByLength width
  have hunlimited : ∀ line ∈ m.wrap font width 0 text, StandsAlone (m.fits font width) line := by
    intro line hline
    rw [wrap_unlimited, List.mem_flatMap] at hline
    obtain ⟨paragraph, -, hline⟩ := hline
    exact standsAlone_of_mem_wrapParagraph hfits hline
  rw [m.wrap_eq font width limit text]
  by_cases hkeep : limit = 0 ∨ (m.wrap font width 0 text).length ≤ limit
  · rwa [limitLines_of_le _ hkeep]
  · obtain ⟨hzero, hmore⟩ := not_or.mp hkeep
    have hlast := List.getElem?_eq_getElem
      (show limit - 1 < (m.wrap font width 0 text).length by omega)
    obtain ⟨kept, hcut, hkept⟩ := exists_isCutTo (m.fits font width)
      (m.wrap font width 0 text)[limit - 1].reverse
    rw [List.reverse_reverse] at hkept
    rw [limitLines_of_lt _ (Nat.pos_of_ne_zero hzero) (Nat.lt_of_not_le hmore) hlast, hcut,
      List.forall_mem_append, List.forall_mem_singleton]
    refine ⟨fun line hline => hunlimited line (List.mem_of_mem_take hline), ?_⟩
    exact hkept.standsAlone (hunlimited _ (List.mem_of_getElem? hlast)).spaced

theorem wrap_ne_nil (width : Binary64) (limit : Nat) (text : List Char) :
    m.wrap font width limit text ≠ [] := by
  have hunlimited : m.wrap font width 0 text ≠ [] := by
    obtain ⟨first, rest, hparagraphs⟩ :=
      List.exists_cons_of_ne_nil (splitWhen_ne_nil (· == '\n') text)
    rw [wrap_unlimited, paragraphs, hparagraphs]
    simp [wrapParagraph, Fill.lines]
  have hlength := List.length_pos_iff.mpr hunlimited
  refine List.ne_nil_of_length_pos ?_
  rw [m.wrap_eq, length_limitLines]
  split <;> omega

/-- Lines that stand are wrapped to themselves, as long as the limit allows for them. -/
theorem wrap_intercalate {m : TextMeasurer} {font : Font} (hgrows : m.GrowsWithLength font)
    {width : Binary64} {limit : Nat} {lines : List (List Char)} (hne : lines ≠ [])
    (hlines : ∀ line ∈ lines, StandsAlone (m.fits font width) line)
    (hlimit : limit = 0 ∨ lines.length ≤ limit) :
    m.wrap font width limit (['\n'].intercalate lines) = lines := by
  have hparagraphs : paragraphs (['\n'].intercalate lines) = lines := by
    refine splitWhen_intercalate (by decide) hne fun line hline c hc => ?_
    by_contra hbreak
    obtain rfl : c = '\n' := by simpa using hbreak
    exact absurd ((hlines line hline).spaced.eq_blank hc (by decide)) (by decide)
  have hwrapped : m.wrap font width 0 (['\n'].intercalate lines) = lines := by
    rw [wrap_unlimited, hparagraphs, List.flatMap_congr fun line hline =>
      (hlines line hline).wrapParagraph_eq (hgrows.fitsByLength width)]
    simp
  rw [m.wrap_eq, hwrapped, limitLines_of_le _ hlimit]

/-- Wrapping is stable. A text that is given its natural width has one line for each paragraph, its
words with single blanks between them. And at any width and limit, the lines of a text taken for the
paragraphs of another are its lines again. -/
theorem wrap_is_stable (hgrows : m.GrowsWithLength font) (width : Binary64) (limit : Nat)
    (text : List Char) :
    (m.naturalWidth font text ≤ width → limit = 0 ∨ (paragraphs text).length ≤ limit →
      m.wrap font width limit text =
        (paragraphs text).map fun paragraph => [' '].intercalate (words paragraph)) ∧
    m.wrap font width limit (['\n'].intercalate (m.wrap font width limit text)) =
      m.wrap font width limit text := by
  constructor
  · intro hwidth hlimit
    have hunlimited := wrap_of_naturalWidth_le hgrows hwidth
    rw [m.wrap_eq, hunlimited, limitLines_of_le]
    rwa [List.length_map]
  · refine wrap_intercalate hgrows (m.wrap_ne_nil font width limit text)
      (standsAlone_of_mem_wrap hgrows width limit text) ?_
    rw [m.wrap_eq, length_limitLines]
    split <;> omega

/-- Blanks in a row, a word that is broken, and a last line that is cut before an ellipsis. -/
theorem wrap_is_stable_of_cut_line :
    ruler.GrowsWithLength ⟨14, .normal⟩ ∧
      ruler.naturalWidth ⟨14, .normal⟩ "ab  lengthy c\n d".toList ≤ 13 ∧
      ruler.wrap ⟨14, .normal⟩ 13 2 "ab  lengthy c\n d".toList =
        ["ab lengthy c".toList, "d".toList] ∧
      ruler.wrap ⟨14, .normal⟩ 4 2 (['\n'].intercalate
          (ruler.wrap ⟨14, .normal⟩ 4 2 "ab  lengthy c\n d".toList)) =
        ruler.wrap ⟨14, .normal⟩ 4 2 "ab  lengthy c\n d".toList := by
  have hgrows := growsWithLength_ruler ⟨14, .normal⟩
  have hwidth : ruler.naturalWidth ⟨14, .normal⟩ "ab  lengthy c\n d".toList ≤ 13 := by decide
  have hnatural := (wrap_is_stable ruler ⟨14, .normal⟩ hgrows 13 2 "ab  lengthy c\n d".toList).1
    hwidth (.inr (by decide))
  exact ⟨hgrows, hwidth, hnatural.trans (by decide),
    (wrap_is_stable ruler ⟨14, .normal⟩ hgrows 4 2 "ab  lengthy c\n d".toList).2⟩

end TextMeasurer
end MessageCard
