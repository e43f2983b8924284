import MessageCard.Proofs.Text.Places

/-!
# Where faults are in the text

A fault of a text that is no JSON says a line and a column, and the span of the fault is the byte
there. Counting line breaks and bytes up to a byte and then going back to where that leads gives the
byte again, for every byte of every text and for its end; and any line and any column lead to a
place in the text.
-/
namespace MessageCard

/-! ## The lines of a text -/

section

variable {lines line after : List Char}

theorem linesWithBreaks_eq (s : List Char) :
    linesWithBreaks s = markedLines (s.map fun c => (c, c == '\n')) := by
  induction s with
  | nil => rfl
  | cons c rest ih =>
    rw [linesWithBreaks, List.map_cons, markedLines, ih]
    exact if_congr beq_iff_eq.symm rfl rfl

theorem map_fst_mark (isBreak : Char → Bool) (s : List Char) :
    (s.map fun c => (c, isBreak c)).map (·.1) = s := by
  rw [List.map_map]
  exact List.map_id s

theorem flatten_linesWithBreaks (s : List Char) : (linesWithBreaks s).flatten = s := by
  rw [linesWithBreaks_eq, flatten_markedLines, map_fst_mark]

theorem areLines_mark (h : AreLines (· == '\n') lines) :
    AreLines (·.2) (lines.map fun c => (c, c == '\n')) := by
  simpa [AreLines] using h

theorem linesWithBreaks_append (h : AreLines (· == '\n') lines) (rest : List Char) :
    linesWithBreaks (lines ++ rest) = linesWithBreaks lines ++ linesWithBreaks rest := by
  rw [linesWithBreaks_eq, List.map_append, markedLines_append (areLines_mark h),
    ← linesWithBreaks_eq, ← linesWithBreaks_eq]

theorem length_linesWithBreaks (h : AreLines (· == '\n') lines) :
    (linesWithBreaks lines).length = lines.countP (· == '\n') := by
  rw [linesWithBreaks_eq, length_markedLines (areLines_mark h), List.countP_map]
  rfl

theorem exists_first_line (hline : ∀ c ∈ line, (c == '\n') = false) (hne : line ++ after ≠ []) :
    ∃ more others, linesWithBreaks (line ++ after) = (line ++ after.take 1 ++ more) :: others := by
  obtain ⟨more, others, hfirst⟩ := exists_first_markedLine (line.map fun c => (c, c == '\n'))
    (after.map fun c => (c, c == '\n')) (by simpa using hline) (by simpa using hne)
  rw [← List.map_take, List.map_append, map_fst_mark, map_fst_mark] at hfirst
  exact ⟨more, others, by rw [linesWithBreaks_eq, List.map_append, hfirst]⟩

end

/-! ## Going to a line and a column -/

/-- Lines before the one that is asked for are passed. -/
theorem lineOffset_append (column offset n : Nat) (lines more : List (List Char)) :
    lineOffset column offset (lines.length + n) (lines ++ more) =
      lineOffset column (offset + byteLength lines.flatten) n more := by
  induction lines generalizing offset with
  | nil => simp
  | cons line rest ih =>
    rw [List.length_cons, Nat.add_right_comm, List.cons_append, lineOffset, ih,
      List.flatten_cons, byteLength_append, Nat.add_assoc]

/-- No line and no column lead out of the text. -/
theorem lineOffset_le (column offset n : Nat) (lines : List (List Char)) :
    lineOffset column offset n lines ≤ offset + byteLength lines.flatten := by
  induction lines generalizing offset n with
  | nil => simp [lineOffset]
  | cons line rest ih =>
    rw [List.flatten_cons, byteLength_append]
    cases n with
    | zero =>
      rw [lineOffset]
      omega
    | succ n =>
      have hrest := ih (offset + byteLength line) n
      rw [lineOffset]
      omega

theorem byteOffset_le (source : List Char) (line column : Nat) :
    byteOffset source line column ≤ byteLength source := by
  cases line with
  | zero => exact Nat.zero_le _
  | succ n =>
    have hle := lineOffset_le column 0 n (linesWithBreaks source)
    rwa [flatten_linesWithBreaks, Nat.zero_add] at hle

/-- The place of a byte, after some lines and a part of its own line, leads to it. -/
theorem byteOffset_of_lines {lines line after : List Char} {j : Nat}
    (hlines : AreLines (· == '\n') lines) (hline : ∀ c ∈ line, (c == '\n') = false)
    (hj : j ≤ byteLength (after.take 1)) :
    byteOffset (lines ++ line ++ after) (lines.countP (· == '\n') + 1) (byteLength line + j + 1) =
      byteLength (lines ++ line) + j := by
  have hskip := lineOffset_append (byteLength line + j + 1) 0 0 (linesWithBreaks lines)
    (linesWithBreaks (line ++ after))
  simp only [length_linesWithBreaks hlines, flatten_linesWithBreaks, Nat.add_zero,
    Nat.zero_add] at hskip
  rw [byteOffset, List.append_assoc, linesWithBreaks_append hlines, hskip, byteLength_append,
    Nat.add_assoc]
  by_cases hend : line ++ after = []
  · obtain ⟨rfl, rfl⟩ := List.append_eq_nil_iff.mp hend
    obtain rfl : j = 0 := by simpa using hj
    rfl
  · obtain ⟨more, others, hfirst⟩ := exists_first_line hline hend
    rw [hfirst, lineOffset, byteLength_append, byteLength_append]
    omega

/-! ## Spans -/

/-- The place of every byte of a text, and of its end, leads back to it and to the span of that
byte; and the span of a fault at any line and column is in the text. -/
theorem span_of_place (source : String) :
    (∀ o ≤ (Utf8.encode source).length, ∀ message,
      let place := Json.Position.following (· == 10) ((Utf8.encode source).take o)
      byteOffset source.toList place.line place.column = o ∧
        (TemplateFault.malformed place.line place.column message).span source.toList =
          ⟨o, min (o + 1) (Utf8.encode source).length⟩) ∧
    ∀ line column message,
      let span := (TemplateFault.malformed line column message).span source.toList
      span.start ≤ span.stop ∧ span.stop ≤ (Utf8.encode source).length := by
  rw [Utf8.encode_eq, Utf8.length_bytes]
  refine ⟨fun o ho message => ?_, fun line column message => ⟨le_max_right _ _, ?_⟩⟩
  · obtain ⟨before, after, j, hsource, rfl, hj, hhead⟩ := Utf8.exists_character ho
    obtain ⟨lines, line, rfl, hlines, hline⟩ := exists_lines (· == '\n') before
    have hfirst : j ≤ byteLength (after.take 1) := by
      cases after with
      | nil => simpa using hj
      | cons c rest => simpa using (hhead c rfl).le
    have hoffset := byteOffset_of_lines hlines hline hfirst
    rw [← hsource] at hoffset
    have hplace := Utf8.following_bytes hlines hline hj hhead
    rw [← hsource] at hplace
    simp only [hplace]
    refine ⟨hoffset, ?_⟩
    rw [TemplateFault.span, hoffset, max_eq_left (le_min (Nat.le_succ _) ho)]
  · have hstart := byteOffset_le source.toList line column
    exact max_le (min_le_right _ _) hstart

/-- The second of three lines is empty, and the line before it has a character of two bytes. -/
theorem span_of_place_of_empty_line : 3 ≤ (Utf8.encode "é\n\nx").length ∧
    byteOffset "é\n\nx".toList 2 1 = 3 ∧
      (TemplateFault.malformed 2 1 "expected value").span "é\n\nx".toList = ⟨3, 4⟩ := by
  have hlength : (Utf8.encode "é\n\nx").length = 5 := by rw [Utf8.encode_eq]; rfl
  have hplace : Json.Position.following (· == 10) ((Utf8.encode "é\n\nx").take 3) = ⟨2, 1⟩ := by
    rw [Utf8.encode_eq]
    decide
  have hle : 3 ≤ (Utf8.encode "é\n\nx").length := by rw [hlength]; decide
  have hspan := (span_of_place "é\n\nx").1 3 hle "expected value"
  rw [hlength] at hspan
  simp only [hplace] at hspan
  exact ⟨hle, hspan⟩

end MessageCard
