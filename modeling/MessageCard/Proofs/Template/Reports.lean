import MessageCard.Proofs.Template.Spans
import MessageCard.Proofs.Text.Brackets
import MessageCard.Proofs.Text.Fitting
import MessageCard.Proofs.Text.Words
import MessageCard.Template.Report

/-!
# Reports that point at the fault

A fault is known by its line and by its byte in it. A report counts characters, and its lines end at
more characters than line feeds. So what the report names and quotes is found by taking the number
of the byte for that of a character, and the two places are the same exactly if bytes and characters
are the same up to the fault and both see the same line breaks up to it. The text of a report shows
all of this, as place and line can be read back from it.
-/
namespace MessageCard.Report

/-! ## The lines of a report -/

/-- The characters of a text, each with whether a report ends a line with it. -/
def marked : List Char → List (Char × Bool)
  | [] => []
  | c :: rest => (c, isLineBreak c && !(c == '\r' && rest.head? == some '\n')) :: marked rest

theorem lines_eq (s : List Char) : lines s = markedLines (marked s) := by
  fun_induction lines s with
  | case1 => rfl
  | case2 rest ih => simp [marked, markedLines, isLineBreak, ih]
  | case3 c rest hpair hbreak ih =>
    have hmark : (c == '\r' && rest.head? == some '\n') = false := by
      rw [Bool.and_eq_false_imp, beq_iff_eq, beq_eq_false_iff_ne]
      intro hc hrest
      obtain ⟨more, rfl⟩ := List.head?_eq_some_iff.mp hrest
      exact hpair more hc rfl
    simp [marked, markedLines, hbreak, hmark, ih]
  | case4 c rest hpair hbreak hrest ih => simp [marked, markedLines, hbreak, ← ih, hrest]
  | case5 c rest hpair hbreak line more hrest ih =>
    simp [marked, markedLines, hbreak, ← ih, hrest]

theorem map_fst_marked (s : List Char) : (marked s).map (·.1) = s := by
  induction s with
  | nil => rfl
  | cons c rest ih => rw [marked, List.map_cons, ih]

theorem flatten_lines (s : List Char) : (lines s).flatten = s := by
  rw [lines_eq, flatten_markedLines, map_fst_marked]

theorem length_marked (s : List Char) : (marked s).length = s.length := by
  rw [← List.length_map (·.1), map_fst_marked]

theorem drop_marked (n : Nat) (s : List Char) : (marked s).drop n = marked (s.drop n) := by
  induction s generalizing n with
  | nil => simp [marked]
  | cons c rest ih =>
    cases n with
    | zero => rfl
    | succ n => exact ih n

theorem getElem?_marked (s : List Char) (i : Nat) : (marked s)[i]? =
    s[i]?.map fun c => (c, isLineBreak c && !(c == '\r' && s[i + 1]? == some '\n')) := by
  induction s generalizing i with
  | nil => rfl
  | cons c rest ih =>
    cases i with
    | zero => cases rest <;> rfl
    | succ i => exact ih i

theorem mark_of_lineFeed {s : List Char} {x : Char × Bool} (hx : x ∈ marked s) (h : x.1 = '\n') :
    x.2 = true := by
  obtain ⟨i, hi⟩ := List.mem_iff_getElem?.mp hx
  rw [getElem?_marked, Option.map_eq_some_iff] at hi
  obtain ⟨c, -, rfl⟩ := hi
  subst h
  rfl

/-- The marks are those of line feeds if and only if every other line break belongs to one. -/
theorem forall_mem_marked_iff {s : List Char} {k : Nat} :
    (∀ x ∈ (marked s).take k, x.2 = (x.1 == '\n')) ↔ ∀ i < k, ∀ c ∈ s[i]?,
      isLineBreak c = true → c = '\n' ∨ c = '\r' ∧ s[i + 1]? = some '\n' := by
  have hmark : ∀ (c : Char) (next : Option Char),
      (isLineBreak c && !(c == '\r' && next == some '\n')) = (c == '\n') ↔
        (isLineBreak c = true → c = '\n' ∨ c = '\r' ∧ next = some '\n') := by
    intro c next
    by_cases hc : c = '\n'
    · subst hc
      simp [isLineBreak]
    · have hne : (c == '\n') = false := beq_eq_false_iff_ne.mpr hc
      cases hbreak : isLineBreak c <;> simp [hc, hne]
  constructor
  · intro h i hi c hc
    have hx : ((marked s).take k)[i]? = some
        (c, isLineBreak c && !(c == '\r' && s[i + 1]? == some '\n')) := by
      rw [List.getElem?_take_of_lt hi, getElem?_marked, Option.mem_def.mp hc, Option.map_some]
    exact (hmark c _).mp (h _ (List.mem_of_getElem? hx))
  · intro h x hx
    obtain ⟨i, hi⟩ := List.mem_iff_getElem?.mp hx
    rw [List.getElem?_take] at hi
    split at hi
    · next hik =>
      rw [getElem?_marked, Option.map_eq_some_iff] at hi
      obtain ⟨c, hc, rfl⟩ := hi
      exact (hmark c _).mpr (h i hik c hc)
    · cases hi

/-! ## Locating a character -/

/-- Lines before the one of the character are passed. -/
theorem locate_append (lines : List (List Char)) {more : List (List Char)} (hmore : more ≠ [])
    (offset number : Nat) :
    locate (lines.flatten.length + offset) number (lines ++ more) =
      locate offset (number + lines.length) more := by
  induction lines generalizing number with
  | nil => simp
  | cons line rest ih =>
    have hpast : ¬((line :: rest).flatten.length + offset < line.length ∨
        rest ++ more = [] ∧ (line :: rest).flatten.length + offset = line.length) := by
      simp [hmore]
      omega
    have hoffset : (line :: rest).flatten.length + offset - line.length =
        rest.flatten.length + offset := by
      simp
      omega
    rw [List.cons_append, locate, if_neg hpast, hoffset, ih, List.length_cons]
    congr 1
    omega

/-- The line of a place is the one with its number. -/
theorem getElem?_of_locate {i number : Nat} {lines : List (List Char)} {place : Place}
    (h : locate i number lines = some place) :
    number ≤ place.number ∧ lines[place.number - number]? = some place.line := by
  induction lines generalizing i number with
  | nil => cases h
  | cons line rest ih =>
    rw [locate] at h
    split at h
    · cases h
      simp
    · obtain ⟨hle, hline⟩ := ih h
      obtain ⟨k, hk⟩ := Nat.exists_eq_add_of_le hle
      rw [hk, Nat.add_sub_cancel_left] at hline
      refine ⟨by omega, ?_⟩
      rw [hk, Nat.add_assoc, Nat.add_sub_cancel_left, Nat.add_comm, List.getElem?_cons_succ, hline]

/-- A character is found after the lines before it and in its own line. -/
theorem locate_marked {before line after : List (Char × Bool)} (hbefore : AreLines (·.2) before)
    (hline : ∀ x ∈ line, x.2 = false) (hafter : after ≠ []) : ∃ first others,
      markedLines (line ++ after) = first :: others ∧
        locate (before ++ line).length 1 (markedLines (before ++ line ++ after)) =
          some ⟨first, before.countP (·.2) + 1, line.length⟩ := by
  obtain ⟨more, others, hfirst⟩ :=
    exists_first_markedLine line after hline (List.append_ne_nil_of_right_ne_nil line hafter)
  refine ⟨_, _, hfirst, ?_⟩
  have hmore : markedLines (line ++ after) ≠ [] := by
    rw [hfirst]
    exact List.cons_ne_nil _ _
  have hskip := locate_append (markedLines before) hmore line.length 1
  rw [flatten_markedLines, length_markedLines hbefore, List.length_map] at hskip
  obtain ⟨x, rest, rfl⟩ := List.exists_cons_of_ne_nil hafter
  rw [List.append_assoc, markedLines_append hbefore, List.length_append, hskip, hfirst, locate,
    if_pos (.inl (by simp)), Nat.add_comm 1]

/-- A character is found at its place by the lines of the report, and in the first of the lines from
the start of its own. -/
theorem exists_locate {s : List Char} {i : Nat} (hi : i < s.length) : ∃ place,
    locate i 1 (lines s) = some place ∧
      Json.Position.following (·.2) ((marked s).take i) = ⟨place.number, place.column + 1⟩ ∧
        ∃ others, lines (s.drop (i - place.column)) = place.line :: others := by
  obtain ⟨before, line, htake, hbefore, hline⟩ := exists_lines (·.2) ((marked s).take i)
  have hlength : (before ++ line).length = i := by
    rw [← htake, List.length_take, length_marked, min_eq_left hi.le]
  have hafter : (marked s).drop i ≠ [] := by
    rw [Ne, List.drop_eq_nil_iff, length_marked]
    exact not_le.mpr hi
  obtain ⟨first, others, hfirst, hplace⟩ := locate_marked hbefore hline hafter
  rw [← htake, List.take_append_drop, List.length_take, length_marked, min_eq_left hi.le,
    ← lines_eq] at hplace
  refine ⟨_, hplace, by rw [htake, following_append hbefore hline], others, ?_⟩
  have hsplit : marked s = before ++ (line ++ (marked s).drop i) := by
    rw [← List.append_assoc, ← htake, List.take_append_drop]
  have hrest : (marked s).drop before.length = line ++ (marked s).drop i :=
    (congrArg (List.drop before.length) hsplit).trans List.drop_left
  rw [lines_eq, ← drop_marked, ← hfirst, ← hrest]
  congr 2
  rw [← hlength, List.length_append, Nat.add_sub_cancel]

/-! ## Quoted lines -/

theorem isBlank_of_isLineBreak {c : Char} (h : isLineBreak c = true) : isBlank c = true := by
  simp only [isLineBreak, Bool.or_eq_true, beq_iff_eq] at h
  rcases h with (((((rfl | rfl) | rfl) | rfl) | rfl) | rfl) | rfl <;> decide

/-- The first line of a text is what stands before its first break, and that break. -/
theorem exists_ending {s first : List Char} {others : List (List Char)}
    (h : lines s = first :: others) : ∃ ending, first = s.takeWhile (!isLineBreak ·) ++ ending ∧
      ∀ c ∈ ending, isBlank c = true := by
  fun_induction lines s generalizing first others with
  | case1 => cases h
  | case2 rest ih =>
    cases h
    exact ⟨['\r', '\n'], by simp [isLineBreak], by simp [isBlank]⟩
  | case3 c rest hpair hbreak ih =>
    cases h
    exact ⟨[c], by simp [hbreak], by simpa using isBlank_of_isLineBreak hbreak⟩
  | case4 c rest hpair hbreak hrest ih =>
    cases h
    have hend := flatten_lines rest
    rw [hrest, List.flatten_nil] at hend
    exact ⟨[], by simp [hbreak, ← hend], by simp⟩
  | case5 c rest hpair hbreak line more hrest ih =>
    cases h
    obtain ⟨ending, rfl, hending⟩ := ih hrest
    exact ⟨ending, by simp [hbreak], hending⟩

theorem shown_ne_nil (column : Nat) (c : Char) : shown column c ≠ [] := by
  have hmod : column % tabWidth < tabWidth := Nat.mod_lt _ (by decide)
  rw [shown]
  split
  · rw [Ne, List.replicate_eq_nil_iff]
    omega
  · split <;> exact List.cons_ne_nil _ _

theorem shownFrom_append (column : Nat) (s t : List Char) :
    shownFrom column (s ++ t) = shownFrom column s ++ shownFrom (column + s.length) t := by
  induction s generalizing column with
  | nil => rfl
  | cons c rest ih =>
    rw [List.cons_append, shownFrom, ih, shownFrom, List.append_assoc, List.length_cons,
      Nat.add_assoc, Nat.add_comm 1]

/-- More of a text shows more. -/
theorem shownFrom_eq_iff {s t : List Char} (h : s <+: t) :
    shownFrom 0 s = shownFrom 0 t ↔ s = t := by
  refine ⟨fun heq => ?_, fun heq => by rw [heq]⟩
  obtain ⟨more, rfl⟩ := h
  rw [shownFrom_append, List.self_eq_append_right] at heq
  cases more with
  | nil => rw [List.append_nil]
  | cons c rest => exact absurd (List.append_eq_nil_iff.mp heq).1 (shown_ne_nil _ c)

/-- A part from the start of a text is a part of what stands before the first character that it does
not have. -/
theorem prefix_takeWhile {p : Char → Bool} {s t : List Char} (h : t <+: s)
    (ht : ∀ c ∈ t, p c = true) : t <+: s.takeWhile p := by
  obtain ⟨rest, rfl⟩ := h
  rw [List.takeWhile_append_of_pos ht]
  exact List.prefix_append _ _

/-- The first line of a report shows as much as the first line of a document, if and only if there
are only blanks in that after a break that is no line feed. -/
theorem quoted_eq_iff {s first : List Char} {others : List (List Char)}
    (h : lines s = first :: others) :
    shownFrom 0 (trimEnd (s.takeWhile (!· == '\n'))) = shownFrom 0 (trimEnd first) ↔
      ∀ c ∈ trimEnd (s.takeWhile (!· == '\n')), isLineBreak c = false := by
  obtain ⟨ending, rfl, hending⟩ := exists_ending h
  rw [trimEnd_append_blank _ hending]
  have hshorter : s.takeWhile (!isLineBreak ·) <+: s.takeWhile (!· == '\n') := by
    refine prefix_takeWhile (List.takeWhile_prefix _) fun c hc => ?_
    have hplain := List.mem_takeWhile_imp hc
    rw [Bool.not_eq_true', beq_eq_false_iff_ne]
    rintro rfl
    exact absurd hplain (by decide)
  have htrim : ∀ t : List Char, trimEnd t <+: t := trimEnd_prefix
  have htrimmed : trimEnd (s.takeWhile (!isLineBreak ·)) <+: trimEnd (s.takeWhile (!· == '\n')) :=
    prefix_trimEnd ((htrim _).trans hshorter) (trimEnd_trimEnd _)
  rw [eq_comm, shownFrom_eq_iff htrimmed]
  constructor
  · intro heq c hc
    rw [← heq] at hc
    simpa using List.mem_takeWhile_imp ((htrim _).subset hc)
  -- Without a break the text in question stops before the first one.
  · intro hplain
    have hprefix : trimEnd (s.takeWhile (!· == '\n')) <+: s.takeWhile (!isLineBreak ·) :=
      prefix_takeWhile ((htrim _).trans (List.takeWhile_prefix _))
        fun c hc => by rw [hplain c hc]; rfl
    exact htrimmed.eq_of_length_le (prefix_trimEnd hprefix (trimEnd_trimEnd _)).length_le

/-! ## The text of a report -/

/-- The space before the bars of a report. -/
def marginAt (place : Json.Position) : List Char :=
  List.replicate ((toString place.line).toList.length + 2) ' '

/-- How a report begins: with its title, and the file and the place that it is about. -/
def heading (title file : List Char) (place : Json.Position) : List Char :=
  title ++ '\n' :: (marginAt place ++ '╭' :: '─' :: '[' :: (file ++
    ':' :: ((toString place.line).toList ++ ':' :: ((toString place.column).toList ++
      ']' :: '\n' :: (marginAt place ++ ['│', '\n'])))))

/-- The row of a report with the number and the text of a line. -/
def quotation (place : Json.Position) (text : List Char) : List Char :=
  ' ' :: ((toString place.line).toList ++ ' ' :: '│' :: ' ' :: (text ++ ['\n']))

/-- A report names a place in a file, and quotes a text as the line there. -/
def Names (report message file : String) (place : Json.Position) (text : List Char) : Prop :=
  heading ("Error: ".toList ++ message.toList) file.toList place ++
    quotation place (shownFrom 0 (trimEnd text)) <+: report.toList

theorem isDigit_of_mem_toString {n : Nat} {c : Char} (h : c ∈ (toString n).toList) :
    c.isDigit = true := by
  refine Nat.isDigit_of_mem_toDigits (b := 10) (n := n) (by decide) (by decide) ?_
  simpa [toString, Nat.repr] using h

theorem toString_toList_ne_nil (n : Nat) : (toString n).toList ≠ [] := by
  have hdigits : (toString n).toList = Nat.toDigits 10 n := by simp [toString, Nat.repr]
  rw [hdigits]
  exact Nat.toDigits_ne_nil

/-- What stands before and after the first of some separators can be told. -/
theorem append_cons_inj_of_first {sep : Char} {a b d e : List Char} (ha : sep ∉ a) (hb : sep ∉ b)
    (h : a ++ sep :: d = b ++ sep :: e) : a = b ∧ d = e := by
  rcases List.append_eq_append_iff.mp h with ⟨t, rfl, ht⟩ | ⟨t, rfl, ht⟩ <;> cases t with
  | nil => simpa [eq_comm] using ht
  | cons c t =>
    obtain ⟨rfl, -⟩ := List.cons.inj ht
    simp at ha hb

/-- A separator that is no digit ends a number. -/
theorem toString_append_cons_inj {m n : Nat} {sep : Char} (hsep : sep.isDigit = false)
    {x y : List Char} (h : (toString m).toList ++ sep :: x = (toString n).toList ++ sep :: y) :
    m = n ∧ x = y := by
  have hnot : ∀ k : Nat, sep ∉ (toString k).toList := by
    intro k hmem
    rw [isDigit_of_mem_toString hmem] at hsep
    cases hsep
  obtain ⟨hnumber, hrest⟩ := append_cons_inj_of_first (hnot m) (hnot n) h
  exact ⟨Nat.repr_inj.mp (String.toList_inj.mp hnumber), hrest⟩

/-- The place can be read back from the heading. -/
theorem heading_inj {title file : List Char} {p q : Json.Position} {x y : List Char}
    (h : heading title file p ++ x = heading title file q ++ y) : p = q ∧ x = y := by
  have hspace : ∀ place, '╭' ∉ marginAt place := by
    intro place hmem
    rw [marginAt, List.mem_replicate] at hmem
    exact absurd hmem.2 (by decide)
  simp only [heading, List.append_assoc, List.cons_append, List.append_cancel_left_eq,
    List.cons.injEq, true_and] at h
  obtain ⟨-, hnames⟩ := append_cons_inj_of_first (hspace p) (hspace q) h
  simp only [List.append_cancel_left_eq, List.cons.injEq, true_and] at hnames
  obtain ⟨hline, hcolumns⟩ := toString_append_cons_inj (by decide) hnames
  obtain ⟨hcolumn, hbars⟩ := toString_append_cons_inj (by decide) hcolumns
  obtain rfl : p = q := by
    cases p
    cases q
    cases hline
    cases hcolumn
    rfl
  simpa using hbars

/-- The rows of a report, one after the other. -/
def text (rows : List (List Char)) : List Char := rows.flatMap (· ++ ['\n'])

theorem text_cons (row : List Char) (rest : List (List Char)) :
    text (row :: rest) = row ++ '\n' :: text rest := by
  simp [text]

theorem text_append (some more : List (List Char)) : text (some ++ more) = text some ++ text more :=
  List.flatMap_append

section

variable {source : List Char} {start stop : Nat} {place : Place}

/-- A report on a place that is found begins with it. -/
theorem text_rows (file message : List Char)
    (hplace : locate start 1 (lines source) = some place) :
    text (rows source file message start stop) =
      heading ("Error: ".toList ++ message) file ⟨place.number, place.column + 1⟩ ++
        text (if decide (start < stop) && decide (source.length ≤ start) then
            [marginAt ⟨place.number, place.column + 1⟩ ++ ['│', ' ']]
          else quoteRows (marginAt ⟨place.number, place.column + 1⟩)
            (toString place.number).toList place (start < stop) message) ++
        text [List.replicate ((toString place.number).toList.length + 2) '─' ++ ['╯']] := by
  unfold rows
  simp only [hplace, text_append, heading, marginAt, text_cons, List.append_assoc,
    List.cons_append, List.nil_append]

/-- A report on a character of the source quotes its line. -/
theorem exists_text_rows (file message : List Char) (stop : Nat)
    (hplace : locate start 1 (lines source) = some place) (hlt : start < source.length) :
    ∃ rest, text (rows source file message start stop) =
      heading ("Error: ".toList ++ message) file ⟨place.number, place.column + 1⟩ ++
        (quotation ⟨place.number, place.column + 1⟩ (shownFrom 0 (trimEnd place.line)) ++
          rest) := by
  rw [text_rows file message hplace]
  simp only [not_le.mpr hlt, decide_false, Bool.and_false, Bool.false_eq_true, if_false, quoteRows,
    text_cons, List.append_assoc]
  exact ⟨_, by simp [quotation]; rfl⟩

/-- A report past the characters of the source quotes no line. -/
theorem not_prefix_text_rows (file message : List Char) (hle : source.length ≤ start)
    (hmarked : start < stop) (p : Json.Position) (line : List Char) :
    ¬heading ("Error: ".toList ++ message) file p ++ quotation p line <+:
      text (rows source file message start stop) := by
  cases hplace : locate start 1 (lines source) with
  | none =>
    intro hprefix
    have hlength := hprefix.length_le
    simp only [rows, hplace, text_cons, heading, quotation, List.length_append,
      List.length_cons] at hlength
    have hnil : (text []).length = 0 := rfl
    omega
  | some found =>
    rw [text_rows file message hplace]
    simp only [hmarked, hle, decide_true, Bool.and_true, if_true]
    rintro ⟨rest, hrest⟩
    rw [List.append_assoc, List.append_assoc] at hrest
    obtain ⟨rfl, hrow⟩ := heading_inj hrest
    -- The row has a blank where the number of the line would be.
    obtain ⟨digit, digits, hdigits⟩ :=
      List.exists_cons_of_ne_nil (toString_toList_ne_nil found.number)
    have hdigit : digit.isDigit = true :=
      isDigit_of_mem_toString (hdigits ▸ List.mem_cons_self)
    have hblank : digit = ' ' := by
      simp only [quotation, marginAt, text_cons, hdigits, List.replicate_succ, List.cons_append,
        List.cons.injEq, true_and] at hrow
      exact hrow.1
    rw [hblank] at hdigit
    cases hdigit

end

theorem lineFeed_not_mem_shownFrom (column : Nat) (s : List Char) : '\n' ∉ shownFrom column s := by
  induction s generalizing column with
  | nil => exact List.not_mem_nil
  | cons c rest ih =>
    rw [shownFrom, List.mem_append, not_or]
    refine ⟨?_, ih _⟩
    rw [shown]
    split
    · exact fun h => absurd (List.eq_of_mem_replicate h) (by decide)
    · split
      · decide
      · next hblank =>
        rw [List.mem_singleton]
        rintro rfl
        exact hblank (by decide)

theorem toList_report {fault : TemplateFault} {source : List Char} {start stop : Nat}
    (hspan : fault.span source = ⟨start, stop⟩) (file : String) :
    (fault.report source file).toList =
      text (rows source file.toList fault.message.toList start stop) := by
  rw [TemplateFault.report, hspan]
  exact String.toList_ofList

/-- What a report on a character of the source names and quotes. -/
theorem names_iff {fault : TemplateFault} {source : List Char} {file : String} {start stop : Nat}
    (hspan : fault.span source = ⟨start, stop⟩) {place : Place}
    (hplace : locate start 1 (lines source) = some place) (hlt : start < source.length)
    (p : Json.Position) (line : List Char) :
    Names (fault.report source file) fault.message file p line ↔
      p = ⟨place.number, place.column + 1⟩ ∧
        shownFrom 0 (trimEnd line) = shownFrom 0 (trimEnd place.line) := by
  obtain ⟨rest, hrest⟩ := exists_text_rows file.toList fault.message.toList stop hplace hlt
  rw [Names, toList_report hspan, hrest]
  constructor
  · rintro ⟨more, hmore⟩
    rw [List.append_assoc] at hmore
    obtain ⟨rfl, hrow⟩ := heading_inj hmore
    simp only [quotation, List.append_assoc, List.cons_append, List.append_cancel_left_eq,
      List.cons.injEq, true_and, List.nil_append] at hrow
    exact ⟨rfl, (append_cons_inj_of_first (lineFeed_not_mem_shownFrom _ _)
      (lineFeed_not_mem_shownFrom _ _) hrow).1⟩
  · rintro ⟨rfl, hline⟩
    rw [hline]
    exact ⟨rest, List.append_assoc _ _ _⟩

/-! ## Bytes and characters -/

/-- The number, from zero, of the character that a byte of a text belongs to. -/
def characterAt : List Char → Nat → Nat
  | [], _ => 0
  | c :: rest, o => if o < c.utf8Size then 0 else characterAt rest (o - c.utf8Size) + 1

theorem characterAt_append (before : List Char) {c : Char} {j : Nat} (hj : j < c.utf8Size)
    (rest : List Char) :
    characterAt (before ++ c :: rest) (byteLength before + j) = before.length := by
  induction before with
  | nil => simp [characterAt, hj]
  | cons d more ih =>
    rw [List.cons_append, characterAt, byteLength_cons, if_neg (by omega), List.length_cons, ← ih]
    congr 2
    omega

theorem length_le_byteLength (s : List Char) : s.length ≤ byteLength s := by
  induction s with
  | nil => exact le_rfl
  | cons c rest ih =>
    have hpos := c.utf8Size_pos
    rw [List.length_cons, byteLength_cons]
    omega

/-- A byte has the number of its character if and only if all bytes before it are below 128. -/
theorem forall_lt_iff_character {c : Char} {j : Nat} (hj : j < c.utf8Size)
    (before rest : List Char) :
    (∀ b ∈ (Utf8.bytes (before ++ c :: rest)).take (byteLength before + j), b < 128) ↔
      byteLength before + j = before.length := by
  induction before with
  | nil =>
    have htake : (Utf8.bytes (c :: rest)).take j = (String.utf8EncodeChar c).take j := by
      rw [Utf8.bytes, List.flatMap_cons,
        List.take_append_of_le_length (by rw [String.length_utf8EncodeChar]; exact hj.le)]
    rw [byteLength_nil, Nat.zero_add, List.nil_append, htake, List.length_nil]
    refine ⟨fun h => ?_, fun h => by simp [h]⟩
    -- The first byte of a character of several bytes is not below 128.
    by_contra hpos
    have hne : (String.utf8EncodeChar c).take j ≠ [] := by
      rw [← List.length_pos_iff, List.length_take, String.length_utf8EncodeChar]
      omega
    obtain ⟨b, hb⟩ := List.exists_mem_of_ne_nil _ hne
    have hsize := Utf8.utf8Size_of_mem (List.mem_of_mem_take hb) (h b hb)
    omega
  | cons d more ih =>
    have htake : (Utf8.bytes (d :: more ++ c :: rest)).take (byteLength (d :: more) + j) =
        String.utf8EncodeChar d ++
          (Utf8.bytes (more ++ c :: rest)).take (byteLength more + j) := by
      rw [byteLength_cons, ← String.length_utf8EncodeChar, Nat.add_assoc]
      exact List.take_length_add_append _
    have hpos := d.utf8Size_pos
    have hle := length_le_byteLength more
    rw [htake, List.forall_mem_append, ih, Utf8.forall_lt_iff_utf8Size, byteLength_cons,
      List.length_cons]
    omega

/-! ## Pointing at the fault -/

/-- The paragraph after some lines is what follows them up to the next line feed. -/
theorem getElem?_paragraphs {lines : List Char} (h : AreLines (· == '\n') lines)
    (rest : List Char) : (paragraphs (lines ++ rest))[lines.countP (· == '\n')]? =
      some (rest.takeWhile (!· == '\n')) := by
  rw [paragraphs, ← head?_splitWhen, List.head?_eq_getElem?]
  rcases List.eq_nil_or_concat lines with rfl | ⟨init, c, rfl⟩
  · rfl
  · have hc : (c == '\n') = true := h c (by simp)
    have hcount : (init.concat c).countP (· == '\n') =
        (splitWhen (· == '\n') init).length + 0 := by
      rw [length_splitWhen, List.concat_eq_append, List.countP_append, List.countP_singleton,
        if_pos hc, Nat.add_zero]
    have hsplit := @splitWhen_append_break (· == '\n') c hc init rest
    rw [hcount, List.concat_eq_append, List.append_assoc, List.singleton_append, hsplit,
      List.getElem?_append_right (Nat.le_add_right _ _), Nat.add_sub_cancel_left]

section

variable {source lines line rest : List Char} {c : Char} {j : Nat}

/-- The fault is at one byte of its character. -/
theorem span_of_lines (hsource : source = lines ++ line ++ c :: rest)
    (hlines : AreLines (· == '\n') lines) (hline : ∀ c ∈ line, (c == '\n') = false)
    (hj : j < c.utf8Size) (message : String) :
    (TemplateFault.malformed (lines.countP (· == '\n') + 1) (byteLength line + j + 1)
      message).span source =
        ⟨byteLength (lines ++ line) + j, byteLength (lines ++ line) + j + 1⟩ := by
  have hfirst : j ≤ byteLength ((c :: rest).take 1) := by simpa using hj.le
  have hinside : byteLength (lines ++ line) + j < byteLength source := by
    rw [hsource, byteLength_append (lines ++ line), byteLength_cons]
    omega
  rw [TemplateFault.span, hsource, byteOffset_of_lines hlines hline hfirst, ← hsource,
    min_eq_left hinside, max_eq_left (Nat.le_succ _)]

/-- The place of the report is that of the document if and only if the byte is taken for the right
character and no other kind of line break comes before it. -/
theorem following_marked_eq_iff (hsource : source = lines ++ line ++ c :: rest)
    (hlines : AreLines (· == '\n') lines) (hline : ∀ c ∈ line, (c == '\n') = false) {o : Nat}
    (hle : (lines ++ line).length ≤ o) (ho : o ≤ source.length) :
    ⟨lines.countP (· == '\n') + 1, line.length + 1⟩ =
        Json.Position.following (·.2) ((marked source).take o) ↔
      o = (lines ++ line).length ∧ ∀ i < o, ∀ c ∈ source[i]?,
        isLineBreak c = true → c = '\n' ∨ c = '\r' ∧ source[i + 1]? = some '\n' := by
  have hfirst : ((marked source).take (lines ++ line).length).map (·.1) = lines ++ line := by
    rw [List.map_take, map_fst_marked, hsource, List.take_left]
  have hplace := following_append hlines hline
  rw [← hfirst, following_map] at hplace
  rw [← hplace, eq_comm, following_take_eq_iff _ hle (by rwa [length_marked]),
    ← forall_mem_marked_iff]
  · refine and_congr_right fun heq => ?_
    rw [heq]
    rfl
  · exact fun x hx hfeed => mark_of_lineFeed hx (beq_iff_eq.mp hfeed)

theorem names_iff_of_lines (hsource : source = lines ++ line ++ c :: rest)
    (hlines : AreLines (· == '\n') lines) (hline : ∀ c ∈ line, (c == '\n') = false)
    (hj : j < c.utf8Size) (file message : String) :
    let fault := TemplateFault.malformed (lines.countP (· == '\n') + 1) (byteLength line + j + 1)
      message
    Names (fault.report source file) fault.message file
        ⟨lines.countP (· == '\n') + 1, line.length + 1⟩
        ((line ++ c :: rest).takeWhile (!· == '\n')) ↔
      byteLength (lines ++ line) + j = (lines ++ line).length ∧
      (∀ i < byteLength (lines ++ line) + j, ∀ c ∈ source[i]?,
        isLineBreak c = true → c = '\n' ∨ c = '\r' ∧ source[i + 1]? = some '\n') ∧
      ∀ d ∈ trimEnd ((line ++ c :: rest).takeWhile (!· == '\n')), isLineBreak d = false := by
  intro fault
  have hspan : fault.span source = _ := span_of_lines hsource hlines hline hj message
  have hlength : (lines ++ line).length < source.length := by
    simp only [hsource, List.length_append, List.length_cons]
    omega
  have hle := (length_le_byteLength (lines ++ line)).trans (Nat.le_add_right _ j)
  generalize byteLength (lines ++ line) + j = o at hspan hle ⊢
  by_cases ho : o < source.length
  · obtain ⟨place, hplace, hfollowing, others, hfirst⟩ := exists_locate ho
    rw [names_iff hspan hplace ho, ← hfollowing,
      following_marked_eq_iff hsource hlines hline hle ho.le, and_assoc]
    refine and_congr_right fun heq => and_congr_right fun hbreaks => ?_
    have hsame := (following_marked_eq_iff hsource hlines hline hle ho.le).mpr ⟨heq, hbreaks⟩
    rw [hfollowing, Json.Position.mk.injEq] at hsame
    have hcolumn : o - place.column = lines.length := by
      rw [List.length_append] at heq
      omega
    rw [hcolumn, hsource, List.append_assoc, List.drop_left] at hfirst
    exact quoted_eq_iff hfirst
  -- Past the characters no line is quoted, and the byte is not the number of any character.
  · refine iff_of_false ?_ fun h => ho (h.1 ▸ hlength)
    rw [Names, toList_report hspan]
    exact not_prefix_text_rows _ _ (not_lt.mp ho) (Nat.lt_succ_self _) _ _

end

/-- A report takes the number of the byte for that of a character, and names the place which that
character has by the line breaks of the report. So it names the line of the fault and its column in
characters, and quotes that line, if and only if the fault comes after one-byte characters alone and
after no line break but line feeds, and its line shows none either. -/
theorem names_place_iff (source file message : String) {o : Nat}
    (ho : o < (Utf8.encode source).length) :
    let place := Json.Position.following (· == 10) ((Utf8.encode source).take o)
    let before := source.toList.take (characterAt source.toList o)
    let line := ((paragraphs source.toList)[place.line - 1]?).getD []
    let fault := TemplateFault.malformed place.line place.column message
    let taken := Json.Position.following (·.2) ((marked source.toList).take o)
    (o < source.toList.length → Names (fault.report source.toList file) fault.message file taken
      (((lines source.toList)[taken.line - 1]?).getD [])) ∧
    (Names (fault.report source.toList file) fault.message file
        ⟨place.line, (Json.Position.following (· == '\n') before).column⟩ line ↔
      (∀ b ∈ (Utf8.encode source).take o, b < 128) ∧
      (∀ i < o, ∀ c ∈ source.toList[i]?, isLineBreak c = true →
        c = '\n' ∨ c = '\r' ∧ source.toList[i + 1]? = some '\n') ∧
      ∀ c ∈ trimEnd line, isLineBreak c = false) := by
  rw [Utf8.encode_eq] at ho ⊢
  rw [Utf8.length_bytes] at ho
  obtain ⟨before, after, j, hsource, rfl, hj, hhead⟩ := Utf8.exists_character ho.le
  obtain ⟨c, rest, rfl⟩ : ∃ c rest, after = c :: rest := by
    refine List.exists_cons_of_ne_nil ?_
    rintro rfl
    rw [hsource, List.append_nil] at ho
    omega
  have hjc : j < c.utf8Size := hhead c rfl
  obtain ⟨lines, line, rfl, hlines, hline⟩ := exists_lines (· == '\n') before
  have hplace := Utf8.following_bytes hlines hline hj hhead
  have hbefore : source.toList.take (characterAt source.toList (byteLength (lines ++ line) + j)) =
      lines ++ line := by
    rw [hsource, characterAt_append _ hjc, List.take_left]
  have hparagraph := getElem?_paragraphs hlines (line ++ c :: rest)
  have hnames := names_iff_of_lines hsource hlines hline hjc file message
  rw [← forall_lt_iff_character hjc (lines ++ line) rest] at hnames
  rw [← List.append_assoc] at hparagraph
  rw [← hsource] at hplace hparagraph hnames
  simp only [hplace, hbefore, following_append hlines hline, Nat.add_sub_cancel, hparagraph,
    Option.getD_some]
  refine ⟨fun hlt => ?_, hnames⟩
  have hspan := span_of_lines hsource hlines hline hjc message
  obtain ⟨found, hfound, hfollowing, -⟩ := exists_locate hlt
  rw [hfollowing, (getElem?_of_locate hfound).2, Option.getD_some]
  exact (names_iff hspan hfound hlt _ _).mpr ⟨rfl, rfl⟩

/-- Behind four characters of two bytes a fault in the first line is reported in the second. -/
theorem names_place_of_two_byte_characters :
    let source := "\x7b\"éééé\":x,\n\"b\":1\x7d"
    let fault := TemplateFault.malformed 1 13 "expected value at line 1 column 13"
    12 < (Utf8.encode source).length ∧
      Names (fault.report source.toList "t.json") fault.message "t.json" ⟨2, 2⟩
        "\"b\":1\x7d".toList ∧
      ¬Names (fault.report source.toList "t.json") fault.message "t.json" ⟨1, 9⟩
        "\x7b\"éééé\":x,".toList := by
  intro source fault
  have hlt : 12 < (Utf8.encode source).length := by
    rw [Utf8.encode_eq]
    decide
  have hplace : Json.Position.following (· == 10) ((Utf8.encode source).take 12) = ⟨1, 13⟩ := by
    rw [Utf8.encode_eq]
    decide
  have hcharacter : characterAt source.toList 12 = 8 := by decide
  have hbefore : Json.Position.following (· == '\n') (source.toList.take 8) = ⟨1, 9⟩ := by decide
  have htaken : Json.Position.following (·.2) ((marked source.toList).take 12) = ⟨2, 2⟩ := by decide
  have hline : (paragraphs source.toList)[0]? = some "\x7b\"éééé\":x,".toList := by decide
  have hrow : (lines source.toList)[1]? = some "\"b\":1\x7d".toList := by decide
  have hnames := names_place_iff source "t.json" "expected value at line 1 column 13" hlt
  simp only [hplace, hcharacter, hbefore, htaken, Nat.sub_self, Nat.add_one_sub_one, hline, hrow,
    Option.getD_some] at hnames
  refine ⟨hlt, hnames.1 (by decide), fun h => ?_⟩
  have hbytes := (hnames.2.mp h).1
  rw [Utf8.encode_eq] at hbytes
  exact absurd (hbytes 195 (by decide)) (by decide)

end MessageCard.Report
