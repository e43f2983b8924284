import MessageCard.Proofs.Binary64.Order
import MessageCard.Proofs.Text.Fitting

/-!
# Wider is never taller

A wider line can hold a longer part of a word that is broken, and so push the next word to another
line. It never comes to more lines all the same. Two fillings with the same words are followed side
by side: the one with the wider lines is never past the other, counting lines first and then
characters on the line, and neither a character nor a word lets it get ahead.
-/
namespace MessageCard

/-- Whether wide lines have room for every text that is no longer than one for which narrow lines
have room. -/
def Roomier (wide narrow : List Char → Bool) : Prop :=
  ∀ s t : List Char, s.length ≤ t.length → narrow t = true → wide s = true

namespace Fill

variable {fits wide narrow : List Char → Bool} {f g : Fill}

/-! ## Words on a line -/

/-- The line being filled with a word after it. -/
def joined (f : Fill) (word : List Char) : List Char :=
  if f.current = [] then word else f.current ++ ' ' :: word

theorem addWord_eq (fits : List Char → Bool) (f : Fill) (word : List Char) :
    f.addWord fits word = if fits (f.joined word) then { f with current := f.joined word }
      else word.foldl (addChar fits) f.flush :=
  rfl

theorem joined_of_nil (h : f.current = []) (word : List Char) : f.joined word = word :=
  if_pos h

theorem length_le_joined (f : Fill) (word : List Char) : word.length ≤ (f.joined word).length := by
  unfold joined
  split
  · exact le_rfl
  · simp only [List.length_append, List.length_cons]
    omega

theorem length_joined_le (h : f.current.length ≤ g.current.length) (word : List Char) :
    (f.joined word).length ≤ (g.joined word).length := by
  by_cases hf : f.current = []
  · rw [joined_of_nil hf]
    exact length_le_joined g word
  · have hg : g.current ≠ [] := fun hg => hf (by simpa [hg] using h)
    simp only [joined, if_neg hf, if_neg hg, List.length_append]
    omega

/-! ## Characters on a line -/

/-- Where there is room for all of them, characters stay on the line. -/
theorem foldl_addChar_of_room {word : List Char}
    (h : ∀ s : List Char, s.length ≤ f.current.length + word.length → fits s = true) :
    word.foldl (addChar fits) f = ⟨f.finished, f.current ++ word⟩ := by
  induction word generalizing f with
  | nil => simp
  | cons c rest ih =>
    have hstep : f.addChar fits c = ⟨f.finished, f.current ++ [c]⟩ := by
      have hfits : fits (f.current ++ [c]) = true := h _ (by simp)
      simp [addChar, hfits]
    rw [List.foldl_cons, hstep, ih fun s hs => h s ?_]
    · simp
    · simp only [List.length_append, List.length_cons, List.length_nil] at hs ⊢
      omega

/-- Characters stay on the line, or some line is finished. -/
theorem foldl_addChar_cases (fits : List Char → Bool) (word : List Char) (f : Fill) :
    word.foldl (addChar fits) f = ⟨f.finished, f.current ++ word⟩ ∨
      f.finished.length < (word.foldl (addChar fits) f).finished.length := by
  induction word generalizing f with
  | nil => exact .inl (by simp)
  | cons c rest ih =>
    rw [List.foldl_cons]
    by_cases hbreak : (f.current ≠ [] && !fits (f.current ++ [c])) = true
    · have hstep : f.addChar fits c = ⟨f.current :: f.finished, [c]⟩ := if_pos hbreak
      rw [hstep]
      refine .inr ?_
      rcases ih ⟨f.current :: f.finished, [c]⟩ with hsame | hmore
      · simp [hsame]
      · exact (Nat.lt_succ_self _).trans hmore
    · have hstep : f.addChar fits c = ⟨f.finished, f.current ++ [c]⟩ := if_neg hbreak
      rw [hstep]
      refine (ih ⟨f.finished, f.current ++ [c]⟩).imp_left fun hsame => ?_
      rw [hsame, List.append_assoc, List.singleton_append]

@[simp] theorem current_flush (f : Fill) : f.flush.current = [] := by
  unfold flush
  split
  · assumption
  · rfl

theorem length_finished_flush (f : Fill) :
    f.flush.finished.length = f.finished.length + if f.current = [] then 0 else 1 := by
  unfold flush
  split <;> rfl

/-! ## Side by side -/

/-- Whether a filling is at most as far as another: on an earlier line, or on the same one and no
further along it. -/
def NotPast (f g : Fill) : Prop :=
  f.finished.length < g.finished.length ∨
    f.finished.length = g.finished.length ∧ f.current.length ≤ g.current.length

theorem NotPast.finished_le (h : NotPast f g) : f.finished.length ≤ g.finished.length := by
  rcases h with h | h <;> omega

theorem NotPast.flush (h : NotPast f g) : NotPast f.flush g.flush := by
  rw [NotPast, length_finished_flush, length_finished_flush, current_flush, current_flush]
  rcases h with hline | ⟨hline, hcolumn⟩
  · split <;> split <;> simp <;> omega
  · by_cases hg : g.current = []
    · have hf : f.current = [] := by simpa [hg] using hcolumn
      simp [hf, hg, hline]
    · rw [if_neg hg]
      split <;> simp <;> omega

theorem NotPast.addChar (hroom : Roomier wide narrow) (h : NotPast f g) (c : Char) :
    NotPast (f.addChar wide c) (g.addChar narrow c) := by
  have hline := h.finished_le
  unfold Fill.addChar
  split
  · next hf =>
    split
    · simp only [NotPast, List.length_cons]
      omega
    -- The wide line is full and the narrow one is not, so the wide filling is on an earlier line.
    · next hg =>
      have hearlier : f.finished.length < g.finished.length := by
        refine h.resolve_right fun hsame => hg ?_
        simp only [Bool.and_eq_true, decide_eq_true_eq, Bool.not_eq_true'] at hf ⊢
        refine ⟨fun hnil => hf.1 (by simpa [hnil] using hsame.2), ?_⟩
        by_contra hfits
        have hwide := hroom (f.current ++ [c]) (g.current ++ [c]) (by simpa using hsame.2)
          (by simpa using hfits)
        exact absurd (hf.2.symm.trans hwide) (by simp)
      simp only [NotPast, List.length_cons, List.length_append, List.length_nil]
      omega
  · split
    · exact .inl (Nat.lt_succ_of_le hline)
    · exact h.imp_right fun hsame => ⟨hsame.1, by simpa using hsame.2⟩

theorem NotPast.addWord (hroom : Roomier wide narrow) (h : NotPast f g) (word : List Char) :
    NotPast (f.addWord wide word) (g.addWord narrow word) := by
  rw [addWord_eq, addWord_eq]
  split
  · split
    · exact h.imp_right fun hsame => ⟨hsame.1, length_joined_le hsame.2 word⟩
    -- The word stays on the wide line. On narrow lines it begins a new one, if it does not stand
    -- at the start of one anyhow.
    · have hflush := length_finished_flush g
      rcases foldl_addChar_cases narrow word g.flush with hwhole | hmore
      · rw [hwhole, current_flush, List.nil_append]
        by_cases hg : g.current = []
        · rw [if_pos hg, Nat.add_zero] at hflush
          refine h.imp (fun hline => hflush ▸ hline) fun hsame => ⟨hsame.1.trans hflush.symm, ?_⟩
          have hf : f.current = [] := by simpa [hg] using hsame.2
          exact (congrArg List.length (joined_of_nil hf word)).le
        · rw [if_neg hg] at hflush
          exact .inl (hflush ▸ Nat.lt_succ_of_le h.finished_le)
      · exact .inl (by have := h.finished_le; dsimp only; omega)
  · next hf =>
    split
    -- The word stays on the narrow line, so the wide filling is on an earlier one and there is room
    -- for the whole word on the next.
    · next hg =>
      have hearlier : f.finished.length < g.finished.length :=
        h.resolve_right fun hsame => hf (hroom _ _ (length_joined_le hsame.2 word) hg)
      have hwhole : word.foldl (Fill.addChar wide) f.flush = ⟨f.flush.finished, word⟩ := by
        rw [foldl_addChar_of_room fun s hs => hroom s _ ?_ hg, current_flush, List.nil_append]
        rw [current_flush, List.length_nil, Nat.zero_add] at hs
        exact hs.trans (length_le_joined g word)
      have hlength := length_le_joined g word
      have hflush := length_finished_flush f
      rw [hwhole, NotPast]
      dsimp only
      split at hflush <;> omega
    · exact List.foldl_rel h.flush fun c _ _ _ h => h.addChar hroom c

end Fill

/-- A paragraph takes no more lines where there is more room. -/
theorem length_wrapParagraph_le {wide narrow : List Char → Bool} (hroom : Roomier wide narrow)
    (paragraph : List Char) :
    (wrapParagraph wide paragraph).length ≤ (wrapParagraph narrow paragraph).length := by
  have hstart : Fill.NotPast ⟨[], []⟩ ⟨[], []⟩ := .inr ⟨rfl, le_rfl⟩
  have hend : Fill.NotPast ((words paragraph).foldl (Fill.addWord wide) ⟨[], []⟩)
      ((words paragraph).foldl (Fill.addWord narrow) ⟨[], []⟩) :=
    List.foldl_rel hstart fun word _ _ _ h => h.addWord hroom word
  simpa [wrapParagraph, Fill.lines] using hend.finished_le

/-- A limit counts for what is above it. -/
theorem length_limitLines (fits : List Char → Bool) (limit : Nat) (lines : List (List Char)) :
    (limitLines fits limit lines).length =
      if limit = 0 then lines.length else min lines.length limit := by
  by_cases h : limit = 0 ∨ lines.length ≤ limit
  · rw [limitLines_of_le fits h]
    split
    · rfl
    · next hlimit => rw [Nat.min_eq_left (h.resolve_left hlimit)]
  · obtain ⟨hlimit, hlength⟩ := not_or.mp h
    have hlast := List.getElem?_eq_getElem (show limit - 1 < lines.length by omega)
    rw [limitLines_of_lt fits (Nat.pos_of_ne_zero hlimit) (Nat.lt_of_not_le hlength) hlast,
      if_neg hlimit, List.length_append, List.length_take, List.length_singleton]
    omega

namespace TextMeasurer

variable (m : TextMeasurer) (font : Font)

theorem GrowsWithLength.roomier {m : TextMeasurer} {font : Font} (h : m.GrowsWithLength font)
    {narrow wide : Binary64} (hwidth : narrow ≤ wide) :
    Roomier (m.fits font wide) (m.fits font narrow) := by
  intro s t hlength hfits
  simp only [fits, decide_eq_true_eq, Binary64.le_iff] at hfits ⊢
  exact ((h s t hlength).trans hfits : _ ≤ narrow.value).trans hwidth

/-- A text takes no more lines where it is given more width. -/
theorem length_wrap_le {m : TextMeasurer} {font : Font} (hgrows : m.GrowsWithLength font)
    {narrow wide : Binary64} (hwidth : narrow ≤ wide) (limit : Nat) (text : List Char) :
    (m.wrap font wide limit text).length ≤ (m.wrap font narrow limit text).length := by
  have hunlimited :
      (m.wrap font wide 0 text).length ≤ (m.wrap font narrow 0 text).length := by
    rw [wrap_unlimited, wrap_unlimited]
    induction paragraphs text with
    | nil => exact le_rfl
    | cons paragraph rest ih =>
      have hfirst := length_wrapParagraph_le (hgrows.roomier hwidth) paragraph
      simp only [List.flatMap_cons, List.length_append]
      omega
  rw [m.wrap_eq font wide, m.wrap_eq font narrow, length_limitLines, length_limitLines]
  split
  · exact hunlimited
  · exact min_le_min_right limit hunlimited

/-- Wider is never taller: a text measured at a greater width has no more lines, and no greater
height. -/
theorem measure_of_wider (hgrows : m.GrowsWithLength font) (hheight : 0 ≤ m.lineHeight font)
    {narrow wide : Binary64} (hwidth : narrow ≤ wide) (limit : Nat) (text : List Char) :
    (m.measure font wide limit text).lines.length ≤
        (m.measure font narrow limit text).lines.length ∧
      (m.measure font wide limit text).height ≤ (m.measure font narrow limit text).height := by
  have hlines := length_wrap_le hgrows hwidth limit text
  exact ⟨hlines, Binary64.natCast_mul_le_natCast_mul hheight (max_le_max_right 1 hlines)⟩

/-- On lines of five characters a longer part of the broken word is left than on lines of four, and
pushes the word after it to another line. -/
theorem measure_of_wider_of_pushed_word :
    ruler.GrowsWithLength ⟨14, .normal⟩ ∧ 0 ≤ ruler.lineHeight ⟨14, .normal⟩ ∧
      (4 : Binary64) ≤ 5 ∧
      (ruler.measure ⟨14, .normal⟩ 5 0 "abcdefghi jk".toList).lines.length ≤
        (ruler.measure ⟨14, .normal⟩ 4 0 "abcdefghi jk".toList).lines.length ∧
      (ruler.measure ⟨14, .normal⟩ 5 0 "abcdefghi jk".toList).height ≤
        (ruler.measure ⟨14, .normal⟩ 4 0 "abcdefghi jk".toList).height := by
  have hgrows := growsWithLength_ruler ⟨14, .normal⟩
  have hheight : 0 ≤ ruler.lineHeight ⟨14, .normal⟩ := by decide
  have hwidth : (4 : Binary64) ≤ 5 := by decide
  exact ⟨hgrows, hheight, hwidth,
    measure_of_wider ruler ⟨14, .normal⟩ hgrows hheight hwidth 0 "abcdefghi jk".toList⟩

end TextMeasurer
end MessageCard
