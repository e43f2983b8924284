import Mathlib.Data.List.DropRight
import MessageCard.Proofs.Text.Wrapping

/-!
# Lines that fit

Whatever the measurer, a line of wrapped text changes only into what was measured before. So every
line was found to fit, apart from those too short to be broken, and nothing has to be known about
the width of one text and that of a part of it. Where lines are left out, the last one is cut to as
much of it as fits before an ellipsis.
-/
namespace MessageCard

namespace Fill

variable {fits : List Char → Bool}

/-- Whether a line fits, or is too short to be broken. -/
def FitsOrShort (fits : List Char → Bool) (line : List Char) : Prop :=
  line.length ≤ 1 ∨ fits line = true

theorem fitsOrShort_addChar {f : Fill} (h : ∀ line ∈ f.lines, FitsOrShort fits line) (c : Char) :
    ∀ line ∈ (f.addChar fits c).lines, FitsOrShort fits line := by
  rw [lines_eq, List.forall_mem_append] at h
  obtain ⟨hfinished, hcurrent⟩ := h
  unfold Fill.addChar
  split
  · simp only [lines_eq, List.reverse_cons, List.forall_mem_append]
    exact ⟨⟨hfinished, hcurrent⟩, by simp [FitsOrShort]⟩
  · next hkeep =>
    rw [lines_eq, List.forall_mem_append]
    refine ⟨hfinished, List.forall_mem_singleton.mpr ?_⟩
    by_cases hnil : f.current = []
    · exact .inl (by simp [hnil])
    · exact .inr (by simpa [hnil] using hkeep)

theorem fitsOrShort_foldl_addChar {f : Fill} (h : ∀ line ∈ f.lines, FitsOrShort fits line)
    (word : List Char) :
    ∀ line ∈ (word.foldl (Fill.addChar fits) f).lines, FitsOrShort fits line := by
  induction word generalizing f with
  | nil => exact h
  | cons c rest ih => exact ih (fitsOrShort_addChar h c)

theorem fitsOrShort_addWord {f : Fill} (h : ∀ line ∈ f.lines, FitsOrShort fits line)
    (w : List Char) : ∀ line ∈ (f.addWord fits w).lines, FitsOrShort fits line := by
  rw [lines_eq, List.forall_mem_append, List.forall_mem_singleton] at h
  obtain ⟨hfinished, hcurrent⟩ := h
  -- Whatever the line would be with the word, it is taken only if it fits.
  obtain ⟨candidate, hadd⟩ : ∃ candidate, f.addWord fits w =
      if fits candidate = true then { f with current := candidate }
      else w.foldl (Fill.addChar fits) f.flush := ⟨_, rfl⟩
  rw [hadd]
  split
  · next hfit =>
    rw [lines_eq, List.forall_mem_append, List.forall_mem_singleton]
    exact ⟨hfinished, .inr hfit⟩
  · refine fitsOrShort_foldl_addChar ?_ w
    unfold Fill.flush
    split
    · rw [lines_eq, List.forall_mem_append, List.forall_mem_singleton]
      exact ⟨hfinished, hcurrent⟩
    · simp only [lines_eq, List.reverse_cons, List.forall_mem_append, List.forall_mem_singleton]
      exact ⟨⟨hfinished, hcurrent⟩, by simp [FitsOrShort]⟩

theorem fitsOrShort_foldl_addWord {f : Fill} (h : ∀ line ∈ f.lines, FitsOrShort fits line)
    (ws : List (List Char)) :
    ∀ line ∈ (ws.foldl (Fill.addWord fits) f).lines, FitsOrShort fits line := by
  induction ws generalizing f with
  | nil => exact h
  | cons w rest ih => exact ih (fitsOrShort_addWord h w)

end Fill

theorem fitsOrShort_wrapParagraph (fits : List Char → Bool) (paragraph : List Char) :
    ∀ line ∈ wrapParagraph fits paragraph, Fill.FitsOrShort fits line :=
  Fill.fitsOrShort_foldl_addWord (by simp [Fill.lines, Fill.FitsOrShort]) (words paragraph)

/-! ## Cutting a line -/

/-- A line cut to as much of it as fits before an ellipsis: a part from its start, without white
space at its end, and nothing if no part fits. -/
structure IsCutTo (fits : List Char → Bool) (line kept : List Char) : Prop where
  kept_prefix : kept <+: line
  trimmed : trimEnd kept = kept
  fits_or_nil : kept = [] ∨ fits (kept ++ ['…']) = true
  longest : ∀ longer, longer <+: line → trimEnd longer = longer → kept.length < longer.length →
    fits (longer ++ ['…']) = false

theorem trimEnd_eq (s : List Char) : trimEnd s = s.rdropWhile isBlank := rfl

theorem trimEnd_prefix (s : List Char) : trimEnd s <+: s := List.rdropWhile_prefix isBlank s

theorem trimEnd_trimEnd (s : List Char) : trimEnd (trimEnd s) = trimEnd s :=
  List.rdropWhile_idempotent isBlank s

/-- A part from the start of a text that does not end in white space is a part of the trimmed
text. -/
theorem prefix_trimEnd {s t : List Char} (h : t <+: s) (htrim : trimEnd t = t) :
    t <+: trimEnd s := by
  obtain ⟨rest, rfl⟩ := h
  induction rest using List.reverseRecOn with
  | nil => simp [htrim]
  | append_singleton rest c ih =>
    rw [trimEnd_eq, ← List.append_assoc, List.rdropWhile_concat]
    split
    · exact ih
    · rw [List.append_assoc]
      exact List.prefix_append t _

theorem exists_isCutTo (fits : List Char → Bool) (reversed : List Char) :
    ∃ kept, ellipsize fits reversed = kept ++ ['…'] ∧ IsCutTo fits reversed.reverse kept := by
  induction reversed with
  | nil =>
    refine ⟨[], rfl, List.prefix_refl _, rfl, .inl rfl, fun longer hlonger _ hlength => ?_⟩
    rw [List.prefix_nil.mp hlonger] at hlength
    exact absurd hlength (Nat.lt_irrefl _)
  | cons c rest ih =>
    have htrim : ((c :: rest).dropWhile isBlank).reverse = trimEnd (c :: rest).reverse := by
      simp [trimEnd]
    unfold ellipsize
    rw [htrim]
    dsimp only
    split
    · next hfit =>
      refine ⟨_, rfl, trimEnd_prefix _, trimEnd_trimEnd _, .inr hfit, ?_⟩
      intro longer hlonger htrimmed hlength
      have hle := (prefix_trimEnd hlonger htrimmed).length_le
      omega
    · next hwide =>
      obtain ⟨kept, heq, hprefix, htrimmed, hfit, hlongest⟩ := ih
      rw [List.reverse_cons] at hwide ⊢
      refine ⟨kept, heq, hprefix.trans (List.prefix_append _ _), htrimmed, hfit, ?_⟩
      intro longer hlonger hlongerTrimmed hlength
      rcases List.prefix_concat_iff.mp hlonger with rfl | hlonger
      · rw [hlongerTrimmed] at hwide
        simpa using hwide
      · exact hlongest longer hlonger hlongerTrimmed hlength

/-- Lines above the limit are left out, and the last one that stays is cut. -/
theorem limitLines_of_lt (fits : List Char → Bool) {limit : Nat} {lines : List (List Char)}
    {last : List Char} (hpos : 0 < limit) (hlt : limit < lines.length)
    (hlast : lines[limit - 1]? = some last) :
    limitLines fits limit lines = lines.take (limit - 1) ++ [ellipsize fits last.reverse] := by
  have hkeep : ¬ (limit = 0 ∨ lines.length ≤ limit) := by omega
  have hkept : (lines.take limit).getLast? = some last := by
    rw [List.getLast?_take]
    simp [hpos.ne', hlast]
  simp only [limitLines, if_neg hkeep, hkept, List.dropLast_take hlt]

theorem limitLines_of_le (fits : List Char → Bool) {limit : Nat} {lines : List (List Char)}
    (h : limit = 0 ∨ lines.length ≤ limit) : limitLines fits limit lines = lines :=
  if_pos h

namespace TextMeasurer

variable (m : TextMeasurer) (font : Font)

theorem wrap_eq (width : Binary64) (limit : Nat) (text : List Char) :
    m.wrap font width limit text =
      limitLines (m.fits font width) limit (m.wrap font width 0 text) := by
  rw [wrap_unlimited]
  rfl

theorem fitsOrShort_unlimited (width : Binary64) (text : List Char) :
    ∀ line ∈ m.wrap font width 0 text, Fill.FitsOrShort (m.fits font width) line := by
  intro line hline
  rw [wrap_unlimited, List.mem_flatMap] at hline
  obtain ⟨paragraph, -, hline⟩ := hline
  exact fitsOrShort_wrapParagraph _ paragraph line hline

/-- Every line of a wrapped text fits, is empty or has a single character. There are at most as many
lines as the limit allows, and all of them where they are not more. Where they are more, those
before the last allowed one are as they would be, and that one is cut to as much of it as fits
before an ellipsis. -/
theorem wrapped_lines_fit (width : Binary64) (limit : Nat) (text : List Char) :
    (∀ line ∈ m.wrap font width limit text, line.length ≤ 1 ∨ m.lineWidth font line ≤ width) ∧
    (0 < limit → (m.wrap font width limit text).length ≤ limit) ∧
    (limit = 0 ∨ (m.wrap font width 0 text).length ≤ limit →
      m.wrap font width limit text = m.wrap font width 0 text) ∧
    (0 < limit → limit < (m.wrap font width 0 text).length → ∃ last kept,
      (m.wrap font width 0 text)[limit - 1]? = some last ∧
      IsCutTo (m.fits font width) last kept ∧
      m.wrap font width limit text =
        (m.wrap font width 0 text).take (limit - 1) ++ [kept ++ ['…']]) := by
  have hall := m.fitsOrShort_unlimited font width text
  rw [m.wrap_eq font width limit text]
  generalize m.wrap font width 0 text = lines at *
  by_cases hkeep : limit = 0 ∨ lines.length ≤ limit
  · rw [limitLines_of_le _ hkeep]
    refine ⟨by simpa [Fill.FitsOrShort, fits] using hall, ?_, fun _ => rfl, ?_⟩ <;> omega
  · obtain ⟨hzero, hmore⟩ := not_or.mp hkeep
    have hpos : 0 < limit := by omega
    have hlt : limit < lines.length := by omega
    obtain ⟨last, hlast⟩ : ∃ last, lines[limit - 1]? = some last :=
      ⟨_, List.getElem?_eq_getElem (show limit - 1 < lines.length by omega)⟩
    obtain ⟨kept, hcut, hkept⟩ := exists_isCutTo (m.fits font width) last.reverse
    rw [List.reverse_reverse] at hkept
    rw [limitLines_of_lt _ hpos hlt hlast, hcut]
    refine ⟨?_, fun _ => ?_, fun h => absurd h hkeep, fun _ _ => ⟨last, kept, hlast, hkept, rfl⟩⟩
    · rw [List.forall_mem_append, List.forall_mem_singleton]
      refine ⟨fun line hline => ?_, ?_⟩
      · simpa [Fill.FitsOrShort, fits] using hall line (List.mem_of_mem_take hline)
      · rcases hkept.fits_or_nil with rfl | hfit
        · exact .inl (by simp)
        · exact .inr (by simpa [fits] using hfit)
    · rw [List.length_append, List.length_take, List.length_singleton]
      omega

end TextMeasurer
end MessageCard
