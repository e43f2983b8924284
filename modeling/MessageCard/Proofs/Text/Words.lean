import Mathlib.Data.List.Basic
import Mathlib.Data.List.Induction
import MessageCard.Text.Blank

/-!
# Words and white space

The words of a text are what stands between its white space, so together they are the text without
it. Words set one after the other with a blank between them are read back as the same words. White
space around a text makes no difference once it is trimmed.
-/
namespace MessageCard

/-! ## Splitting -/

section

variable {isBreak : Char → Bool} {c : Char}

theorem splitWhen_ne_nil (isBreak : Char → Bool) (s : List Char) : splitWhen isBreak s ≠ [] := by
  cases s with
  | nil => simp [splitWhen]
  | cons c rest =>
    simp only [splitWhen]
    split
    · simp
    · split <;> simp

/-- A break separates the parts before it from the parts after it. -/
theorem splitWhen_append_break (h : isBreak c = true) (s t : List Char) :
    splitWhen isBreak (s ++ c :: t) = splitWhen isBreak s ++ splitWhen isBreak t := by
  induction s with
  | nil => simp [splitWhen, h]
  | cons d rest ih =>
    simp only [List.cons_append, splitWhen, ih]
    split
    · rfl
    · obtain ⟨part, parts, hparts⟩ := List.exists_cons_of_ne_nil (splitWhen_ne_nil isBreak rest)
      simp [hparts]

/-- The parts of a text together are the text without its breaks. -/
theorem flatten_splitWhen (isBreak : Char → Bool) (s : List Char) :
    (splitWhen isBreak s).flatten = s.filter (!isBreak ·) := by
  induction s with
  | nil => rfl
  | cons c rest ih =>
    simp only [splitWhen]
    split
    · next h => simp [h, ih]
    · next h =>
      obtain ⟨part, parts, hparts⟩ := List.exists_cons_of_ne_nil (splitWhen_ne_nil isBreak rest)
      rw [hparts] at ih ⊢
      simp [h, ← ih]

theorem splitWhen_of_forall_not {s : List Char} (h : ∀ c ∈ s, isBreak c = false) :
    splitWhen isBreak s = [s] := by
  induction s with
  | nil => rfl
  | cons c rest ih =>
    obtain ⟨hc, hrest⟩ := List.forall_mem_cons.mp h
    simp [splitWhen, hc, ih hrest]

/-- The first part of a text is what stands before its first break. -/
theorem head?_splitWhen (isBreak : Char → Bool) (s : List Char) :
    (splitWhen isBreak s).head? = some (s.takeWhile (!isBreak ·)) := by
  induction s with
  | nil => rfl
  | cons c rest ih =>
    rw [splitWhen]
    split
    · next h => simp [h]
    · next h =>
      obtain ⟨part, parts, hparts⟩ := List.exists_cons_of_ne_nil (splitWhen_ne_nil isBreak rest)
      rw [hparts, List.head?_cons, Option.some.injEq] at ih
      simp [hparts, h, ih]

/-- There is one part more than there are breaks. -/
theorem length_splitWhen (isBreak : Char → Bool) (s : List Char) :
    (splitWhen isBreak s).length = s.countP isBreak + 1 := by
  induction s with
  | nil => rfl
  | cons c rest ih =>
    simp only [splitWhen, List.countP_cons]
    split
    · simp [ih]
    · obtain ⟨part, parts, hparts⟩ := List.exists_cons_of_ne_nil (splitWhen_ne_nil isBreak rest)
      rw [hparts] at ih ⊢
      simpa using ih

/-- Parts set one after the other with breaks between them are read back. -/
theorem splitWhen_intercalate (h : isBreak c = true) {parts : List (List Char)} (hne : parts ≠ [])
    (hparts : ∀ part ∈ parts, ∀ d ∈ part, isBreak d = false) :
    splitWhen isBreak ([c].intercalate parts) = parts := by
  induction parts with
  | nil => exact absurd rfl hne
  | cons part rest ih =>
    obtain ⟨hpart, hrest⟩ := List.forall_mem_cons.mp hparts
    cases rest with
    | nil => rw [List.intercalate_singleton, splitWhen_of_forall_not hpart]
    | cons next others =>
      rw [List.intercalate_cons_cons, List.append_assoc, List.singleton_append,
        splitWhen_append_break h, splitWhen_of_forall_not hpart, ih (List.cons_ne_nil _ _) hrest,
        List.singleton_append]

end

/-! ## Words -/

/-- The text without its white space. -/
def letters (s : List Char) : List Char := s.filter (!isBlank ·)

/-- A word has at least one character and no white space. -/
structure IsWord (w : List Char) : Prop where
  ne_nil : w ≠ []
  not_blank : ∀ c ∈ w, isBlank c = false

theorem letters_flatten (lines : List (List Char)) :
    letters lines.flatten = (lines.map letters).flatten := List.filter_flatten

/-- The words of a text together are the text without its white space. -/
theorem flatten_words (s : List Char) : (words s).flatten = letters s := by
  have hfilter : words s = (splitWhen isBlank s).filter fun part => !part.isEmpty := by
    unfold words
    congr 1
    funext part
    cases part <;> rfl
  rw [hfilter, List.flatten_filter_not_isEmpty, flatten_splitWhen]
  rfl

theorem isWord_of_mem_words {s w : List Char} (h : w ∈ words s) : IsWord w where
  ne_nil := by simpa using (List.mem_filter.mp h).2
  not_blank c hc := by
    have hmem : c ∈ letters s := flatten_words s ▸ List.mem_flatten_of_mem h hc
    simpa [letters] using (List.mem_filter.mp hmem).2

@[simp] theorem words_nil : words [] = [] := rfl

theorem words_of_isWord {w : List Char} (h : IsWord w) : words w = [w] := by
  rw [words, splitWhen_of_forall_not h.not_blank]
  simp [h.ne_nil]

/-- A word after a blank is one more word. -/
theorem words_append_word (s : List Char) {w : List Char} (h : IsWord w) :
    words (s ++ ' ' :: w) = words s ++ [w] := by
  have hw : words w = [w] := words_of_isWord h
  unfold words at hw ⊢
  rw [splitWhen_append_break (by decide), List.filter_append, hw]

/-! ## Words with single blanks between them -/

/-- Whether the words of a text stand in it with single blanks between them, and nothing else. -/
def IsSpaced (s : List Char) : Prop := [' '].intercalate (words s) = s

theorem intercalate_concat (sep w : List Char) {ws : List (List Char)} (h : ws ≠ []) :
    sep.intercalate (ws ++ [w]) = sep.intercalate ws ++ (sep ++ w) := by
  induction ws with
  | nil => exact absurd rfl h
  | cons v rest ih =>
    cases rest with
    | nil => simp
    | cons u rest =>
      have hrest := ih (List.cons_ne_nil u rest)
      rw [List.cons_append] at hrest
      simp [List.intercalate_cons_cons, hrest]

theorem mem_intercalate {sep : List Char} {parts : List (List Char)} {c : Char}
    (h : c ∈ sep.intercalate parts) : c ∈ sep ∨ ∃ part ∈ parts, c ∈ part := by
  induction parts with
  | nil => simp at h
  | cons part rest ih =>
    cases rest with
    | nil => exact .inr ⟨part, List.mem_cons_self, by simpa using h⟩
    | cons next others =>
      rw [List.intercalate_cons_cons, List.mem_append, List.mem_append] at h
      rcases h with (hpart | hsep) | hrest
      · exact .inr ⟨part, List.mem_cons_self, hpart⟩
      · exact .inl hsep
      · exact (ih hrest).imp_right fun ⟨p, hp, hc⟩ => ⟨p, List.mem_cons_of_mem _ hp, hc⟩

theorem length_intercalate (c : Char) {parts : List (List Char)} (h : parts ≠ []) :
    ([c].intercalate parts).length + 1 = parts.flatten.length + parts.length := by
  induction parts with
  | nil => exact absurd rfl h
  | cons part rest ih =>
    cases rest with
    | nil => simp
    | cons next others =>
      have hrest := ih (List.cons_ne_nil _ _)
      rw [List.intercalate_cons_cons, List.flatten_cons, List.length_append, List.length_append,
        List.length_append, List.length_singleton, List.length_cons]
      omega

/-- The words of a text with single blanks between them take no more room than the text. -/
theorem length_intercalate_words_le (s : List Char) :
    ([' '].intercalate (words s)).length ≤ s.length := by
  by_cases hnil : words s = []
  · simp [hnil]
  · have hjoined := length_intercalate ' ' hnil
    have hcount : (words s).length ≤ s.countP isBlank + 1 :=
      length_splitWhen isBlank s ▸ List.length_filter_le _ _
    have hparts := List.length_eq_length_filter_add (l := s) isBlank
    rw [← List.countP_eq_length_filter] at hparts
    rw [flatten_words, letters] at hjoined
    omega

/-- Words set one after the other with single blanks between them are read back. -/
theorem words_intercalate {ws : List (List Char)} (h : ∀ w ∈ ws, IsWord w) :
    words ([' '].intercalate ws) = ws := by
  induction ws using List.reverseRecOn with
  | nil => rfl
  | append_singleton ws w ih =>
    obtain ⟨hws, hw⟩ := List.forall_mem_append.mp h
    rw [List.forall_mem_singleton] at hw
    by_cases hnil : ws = []
    · rw [hnil, List.nil_append, List.intercalate_singleton, words_of_isWord hw]
    · rw [intercalate_concat _ _ hnil, List.singleton_append, words_append_word _ hw, ih hws]

theorem isSpaced_intercalate {ws : List (List Char)} (h : ∀ w ∈ ws, IsWord w) :
    IsSpaced ([' '].intercalate ws) := by
  rw [IsSpaced, words_intercalate h]

theorem isSpaced_nil : IsSpaced [] := rfl

theorem isSpaced_of_isWord {w : List Char} (h : IsWord w) : IsSpaced w := by
  rw [IsSpaced, words_of_isWord h, List.intercalate_singleton]

/-- The only white space between spaced words are blanks. -/
theorem IsSpaced.eq_blank {s : List Char} (h : IsSpaced s) {c : Char} (hc : c ∈ s)
    (hblank : isBlank c = true) : c = ' ' := by
  rw [← h] at hc
  rcases mem_intercalate hc with hsep | ⟨w, hw, hc⟩
  · exact List.mem_singleton.mp hsep
  · exact absurd (hblank.symm.trans ((isWord_of_mem_words hw).not_blank c hc)) (by simp)

/-- A word may follow after a blank. -/
theorem IsSpaced.append_word {s w : List Char} (h : IsSpaced s) (hne : s ≠ []) (hw : IsWord w) :
    IsSpaced (s ++ ' ' :: w) := by
  have hwords : words s ≠ [] := by
    intro hnil
    rw [IsSpaced, hnil] at h
    exact hne h.symm
  rw [IsSpaced, words_append_word s hw, intercalate_concat _ _ hwords, h]
  rfl

/-! ## Trimming -/

theorem trimEnd_append_blank (s : List Char) {ending : List Char}
    (h : ∀ c ∈ ending, isBlank c = true) : trimEnd (s ++ ending) = trimEnd s := by
  rw [trimEnd, List.reverse_append, List.dropWhile_append_of_pos (by simpa using h), trimEnd]

/-- White space around a text is trimmed with that of the text. -/
theorem trim_between_blanks (s : List Char) {before ending : List Char}
    (hbefore : ∀ c ∈ before, isBlank c = true) (hending : ∀ c ∈ ending, isBlank c = true) :
    trim (before ++ (s ++ ending)) = trim s := by
  rw [trim, trimStart, List.dropWhile_append_of_pos hbefore, List.dropWhile_append, trim, trimStart]
  split
  · next hblank =>
    rw [List.isEmpty_iff] at hblank
    rw [hblank, ← List.nil_append (ending.dropWhile isBlank)]
    exact trimEnd_append_blank [] fun c hc => hending c ((List.dropWhile_sublist _).subset hc)
  · exact trimEnd_append_blank _ hending

end MessageCard
