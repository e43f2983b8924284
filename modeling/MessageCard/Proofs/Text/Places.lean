import Mathlib.Data.List.DropRight
import MessageCard.Template.Fault
import MessageCard.Text.Utf8

/-!
# Places in texts

A place is a line and a column, both counted from one. It can be told from what stands before it,
whether that is counted in bytes or in characters, and whatever is taken for the end of a line: the
whole lines before it, and the part of its own line before it.
-/
namespace MessageCard

/-! ## What stands before a place -/

section

variable {α : Type} {isBreak : α → Bool}

/-- The place that follows some parts of a text, bytes or characters: its line is one more than the
line breaks among them, its column one more than the parts after the last of these. -/
def Json.Position.following (isBreak : α → Bool) (before : List α) : Json.Position :=
  ⟨before.countP isBreak + 1, (before.rtakeWhile (!isBreak ·)).length + 1⟩

/-- Some parts of a text are whole lines: the last of them, if there is one, ends a line. -/
def AreLines (isBreak : α → Bool) (parts : List α) : Prop :=
  ∀ x ∈ parts.getLast?, isBreak x = true

theorem AreLines.of_cons {x : α} {parts : List α} (h : AreLines isBreak (x :: parts)) :
    AreLines isBreak parts := by
  cases parts with
  | nil => simp [AreLines]
  | cons y rest => simpa [AreLines] using h

/-- What does not end a line is not the last part of whole lines. -/
theorem AreLines.ne_nil_of_cons {x : α} {parts : List α} (h : AreLines isBreak (x :: parts))
    (hx : isBreak x = false) : parts ≠ [] := by
  rintro rfl
  rw [h x rfl] at hx
  cases hx

/-- Before every place there are whole lines, and the part of a line. -/
theorem exists_lines (isBreak : α → Bool) (before : List α) : ∃ lines line,
    before = lines ++ line ∧ AreLines isBreak lines ∧ ∀ x ∈ line, isBreak x = false := by
  refine ⟨before.rdropWhile (!isBreak ·), before.rtakeWhile (!isBreak ·),
    List.rdropWhile_append_rtakeWhile.symm, fun x hx => ?_, fun x hx => ?_⟩
  · obtain ⟨hne, rfl⟩ := List.mem_getLast?_eq_getLast hx
    simpa using List.rdropWhile_last_not (!isBreak ·) before hne
  · simpa using List.mem_rtakeWhile_imp hx

theorem following_append {lines line : List α} (hlines : AreLines isBreak lines)
    (hline : ∀ x ∈ line, isBreak x = false) : Json.Position.following isBreak (lines ++ line) =
      ⟨lines.countP isBreak + 1, line.length + 1⟩ := by
  have hcount : line.countP isBreak = 0 := by simpa [List.countP_eq_zero] using hline
  have hlast : lines.reverse.takeWhile (!isBreak ·) = [] := by
    cases hrev : lines.reverse with
    | nil => rfl
    | cons x rest =>
      have hx : x ∈ lines.getLast? := by rw [List.getLast?_eq_head?_reverse, hrev]; rfl
      simp [hlines x hx]
  have htake : (lines ++ line).rtakeWhile (!isBreak ·) = line := by
    rw [List.rtakeWhile, List.reverse_append, List.takeWhile_append_of_pos (by simpa using hline),
      hlast, List.append_nil, List.reverse_reverse]
  rw [Json.Position.following, htake, List.countP_append, hcount, Nat.add_zero]

theorem following_map {β : Type} (f : β → α) (before : List β) :
    Json.Position.following isBreak (before.map f) =
      Json.Position.following (isBreak ∘ f) before := by
  obtain ⟨lines, line, rfl, hlines, hline⟩ := exists_lines (isBreak ∘ f) before
  have hlines' : AreLines isBreak (lines.map f) := by
    simpa [AreLines] using hlines
  rw [List.map_append, following_append hlines' (by simpa using hline),
    following_append hlines hline, List.countP_map, List.length_map]

/-! ## Two kinds of line breaks -/

theorem following_congr {isOther : α → Bool} {before : List α}
    (h : ∀ x ∈ before, isOther x = isBreak x) :
    Json.Position.following isOther before = Json.Position.following isBreak before := by
  obtain ⟨lines, line, rfl, hlines, hline⟩ := exists_lines isBreak before
  have hsame : ∀ x ∈ lines, isOther x = isBreak x := fun x hx => h x (List.mem_append_left _ hx)
  have hotherLines : AreLines isOther lines :=
    fun x hx => (hsame x (List.mem_of_getLast? hx)).trans (hlines x hx)
  have hotherLine : ∀ x ∈ line, isOther x = false :=
    fun x hx => (h x (List.mem_append_right _ hx)).trans (hline x hx)
  rw [following_append hlines hline, following_append hotherLines hotherLine,
    List.countP_congr fun x hx => by rw [hsame x hx]]

theorem following_append_of_forall_not (before : List α) {more : List α}
    (h : ∀ x ∈ more, isBreak x = false) : Json.Position.following isBreak (before ++ more) =
      ⟨(Json.Position.following isBreak before).line,
        (Json.Position.following isBreak before).column + more.length⟩ := by
  obtain ⟨lines, line, rfl, hlines, hline⟩ := exists_lines isBreak before
  have hmore : ∀ x ∈ line ++ more, isBreak x = false :=
    fun x hx => (List.mem_append.mp hx).elim (hline x) (h x)
  rw [List.append_assoc, following_append hlines hmore, following_append hlines hline,
    List.length_append, Nat.add_right_comm]

/-- Of two kinds of breaks with equally many of either, where each of the first kind is one of the
second, the second has no others. -/
theorem eq_of_countP_eq {isOther : α → Bool} {s : List α}
    (h : ∀ x ∈ s, isBreak x = true → isOther x = true)
    (hcount : s.countP isOther = s.countP isBreak) : ∀ x ∈ s, isOther x = isBreak x := by
  induction s with
  | nil => simp
  | cons y rest ih =>
    obtain ⟨hy, hrest⟩ := List.forall_mem_cons.mp h
    have hle := List.countP_mono_left hrest
    rw [List.countP_cons, List.countP_cons] at hcount
    have hsame : isOther y = isBreak y := by
      cases hb : isBreak y with
      | true => exact hy hb
      | false =>
        cases ho : isOther y with
        | false => rfl
        | true =>
          rw [hb, ho, if_pos rfl, if_neg Bool.false_ne_true] at hcount
          omega
    rw [hsame] at hcount
    exact List.forall_mem_cons.mpr ⟨hsame, ih hrest (Nat.add_right_cancel hcount)⟩

/-- A place that is counted with more breaks and after more of the text is the same only if nothing
more was counted. -/
theorem following_take_eq_iff {isOther : α → Bool} {s : List α} {k o : Nat}
    (h : ∀ x ∈ s, isBreak x = true → isOther x = true) (hk : k ≤ o) (ho : o ≤ s.length) :
    Json.Position.following isOther (s.take o) = Json.Position.following isBreak (s.take k) ↔
      o = k ∧ ∀ x ∈ s.take k, isOther x = isBreak x := by
  constructor
  · intro hplaces
    have hfirst : ∀ x ∈ s.take k, isBreak x = true → isOther x = true :=
      fun x hx => h x (List.mem_of_mem_take hx)
    obtain ⟨between, hbetween⟩ := List.take_prefix_take_left (l := s) hk
    have hmore := List.countP_mono_left hfirst
    have hcount := congrArg Json.Position.line hplaces
    simp only [Json.Position.following, ← hbetween, List.countP_append] at hcount
    have hnone : ∀ x ∈ between, isOther x = false := by
      have hzero : between.countP isOther = 0 := by omega
      simpa [List.countP_eq_zero] using hzero
    have hsame := eq_of_countP_eq hfirst (by omega)
    have hcolumn := congrArg Json.Position.column hplaces
    rw [← hbetween, following_append_of_forall_not _ hnone, following_congr hsame] at hcolumn
    dsimp only at hcolumn
    have hlength := congrArg List.length hbetween
    rw [List.length_append, List.length_take, List.length_take] at hlength
    exact ⟨by omega, hsame⟩
  · rintro ⟨rfl, hsame⟩
    exact following_congr hsame

end

/-! ## Lines -/

/-- The lines of a text in which each character is marked if a line ends with it. -/
def markedLines : List (Char × Bool) → List (List Char)
  | [] => []
  | (c, ends) :: rest =>
    if ends then [c] :: markedLines rest
    else match markedLines rest with
      | [] => [[c]]
      | line :: lines => (c :: line) :: lines

theorem flatten_markedLines (text : List (Char × Bool)) :
    (markedLines text).flatten = text.map (·.1) := by
  induction text with
  | nil => rfl
  | cons x rest ih =>
    obtain ⟨c, ends⟩ := x
    rw [List.map_cons, ← ih]
    simp only [markedLines]
    split
    · rfl
    · cases markedLines rest <;> rfl

theorem markedLines_ne_nil {text : List (Char × Bool)} (h : text ≠ []) : markedLines text ≠ [] := by
  intro hlines
  have hflatten := flatten_markedLines text
  rw [hlines, List.flatten_nil, eq_comm, List.map_eq_nil_iff] at hflatten
  exact h hflatten

/-- The lines after whole lines are those of the rest alone. -/
theorem markedLines_append {lines : List (Char × Bool)} (h : AreLines (·.2) lines)
    (rest : List (Char × Bool)) :
    markedLines (lines ++ rest) = markedLines lines ++ markedLines rest := by
  induction lines with
  | nil => rfl
  | cons x more ih =>
    obtain ⟨c, ends⟩ := x
    simp only [List.cons_append, markedLines, ih h.of_cons]
    cases ends with
    | true => rfl
    | false =>
      have hmore := markedLines_ne_nil (h.ne_nil_of_cons rfl)
      obtain ⟨line, others, hlines⟩ := List.exists_cons_of_ne_nil hmore
      simp [hlines]

/-- Whole lines are as many as their marks. -/
theorem length_markedLines {lines : List (Char × Bool)} (h : AreLines (·.2) lines) :
    (markedLines lines).length = lines.countP (·.2) := by
  induction lines with
  | nil => rfl
  | cons x more ih =>
    obtain ⟨c, ends⟩ := x
    have hlength := ih h.of_cons
    cases ends with
    | true => simp [markedLines, hlength]
    | false =>
      have hmore := markedLines_ne_nil (h.ne_nil_of_cons rfl)
      obtain ⟨line, others, hlines⟩ := List.exists_cons_of_ne_nil hmore
      rw [hlines] at hlength
      simpa [markedLines, hlines] using hlength

/-- A line goes on to the character after what has no mark. -/
theorem exists_first_markedLine (line rest : List (Char × Bool)) (hline : ∀ x ∈ line, x.2 = false)
    (hne : line ++ rest ≠ []) : ∃ more lines, markedLines (line ++ rest) =
      ((line ++ rest.take 1).map (·.1) ++ more) :: lines := by
  induction line with
  | nil =>
    obtain ⟨⟨c, ends⟩, others, rfl⟩ := List.exists_cons_of_ne_nil hne
    simp only [List.nil_append, markedLines]
    split
    · exact ⟨[], _, rfl⟩
    · split
      · exact ⟨[], [], rfl⟩
      · next first lines _ => exact ⟨first, lines, rfl⟩
  | cons x line ih =>
    obtain ⟨c, ends⟩ := x
    obtain ⟨rfl, hrest⟩ := List.forall_mem_cons.mp hline
    by_cases hend : line ++ rest = []
    · obtain ⟨rfl, rfl⟩ := List.append_eq_nil_iff.mp hend
      exact ⟨[], [], rfl⟩
    · obtain ⟨more, lines, hlines⟩ := ih hrest hend
      exact ⟨more, lines, by simp [markedLines, hlines]⟩

/-! ## Bytes -/

namespace Utf8

theorem toList_loop (bytes : ByteArray) (i : Nat) (read : List UInt8) :
    ByteArray.toList.loop bytes i read = read.reverse ++ bytes.data.toList.drop i := by
  fun_induction ByteArray.toList.loop bytes i read with
  | case1 i read h ih =>
    have hlt : i < bytes.data.toList.length := h
    have hbyte : bytes.get! i = bytes.data.toList[i] := getElem!_pos bytes.data i h
    rw [ih, List.drop_eq_getElem_cons hlt, hbyte]
    simp
  | case2 i read h =>
    have hle : bytes.data.toList.length ≤ i := not_lt.mp h
    simp [List.drop_eq_nil_of_le hle]

/-- The bytes of characters. -/
def bytes (s : List Char) : List UInt8 := s.flatMap String.utf8EncodeChar

theorem encode_eq (s : String) : encode s = bytes s.toList := by
  have hbytes : s.toUTF8.data = (bytes s.toList).toByteArray.data := by
    rw [String.toUTF8, ← String.utf8Encode_toList, List.utf8Encode, bytes]
  rw [encode, ByteArray.toList, toList_loop, hbytes, List.toList_data_toByteArray]
  rfl

theorem bytes_append (s t : List Char) : bytes (s ++ t) = bytes s ++ bytes t := List.flatMap_append

theorem length_bytes (s : List Char) : (bytes s).length = byteLength s := by
  induction s with
  | nil => rfl
  | cons c rest ih =>
    rw [byteLength_cons, ← ih, ← String.length_utf8EncodeChar, ← List.length_append]
    rfl

/-- A character below 128 is one byte, its own code; the bytes of the others are from 128 up. -/
theorem toNat_of_mem_utf8EncodeChar {c : Char} {b : UInt8} (hb : b ∈ String.utf8EncodeChar c) :
    c.toNat < 128 ∧ b.toNat = c.toNat ∨ 128 ≤ c.toNat ∧ 128 ≤ b.toNat := by
  have hcode : c.val.toNat = c.toNat := rfl
  have hbyte : ∀ n, 128 ≤ n → n < 256 → 128 ≤ (UInt8.ofNat n).toNat := by
    intro n hlow hhigh
    rw [UInt8.toNat_ofNat']
    omega
  simp only [String.utf8EncodeChar, hcode] at hb
  split at hb
  · rw [List.mem_singleton.mp hb, UInt8.toNat_ofNat']
    omega
  · refine .inr ⟨by omega, ?_⟩
    split at hb
    · rcases List.mem_pair.mp hb with rfl | rfl <;> exact hbyte _ (by omega) (by omega)
    · split at hb <;> simp only [List.mem_cons, List.not_mem_nil, or_false] at hb
      · rcases hb with rfl | rfl | rfl <;> exact hbyte _ (by omega) (by omega)
      · rcases hb with rfl | rfl | rfl | rfl <;> exact hbyte _ (by omega) (by omega)

theorem utf8Size_eq_one_iff {c : Char} : c.utf8Size = 1 ↔ c.toNat < 128 := by
  rw [Char.utf8Size_eq_one_iff, UInt32.le_iff_toNat_le]
  exact Nat.lt_succ_iff.symm

/-- A byte below 128 is all of its character. -/
theorem utf8Size_of_mem {c : Char} {b : UInt8} (hb : b ∈ String.utf8EncodeChar c) (hlt : b < 128) :
    c.utf8Size = 1 := by
  have hcode : b.toNat < 128 := UInt8.lt_iff_toNat_lt.mp hlt
  rcases toNat_of_mem_utf8EncodeChar hb with ⟨hc, -⟩ | ⟨-, hle⟩
  · exact utf8Size_eq_one_iff.mpr hc
  · omega

theorem forall_lt_iff_utf8Size {c : Char} :
    (∀ b ∈ String.utf8EncodeChar c, b < 128) ↔ c.utf8Size = 1 := by
  constructor
  · intro h
    have hne : String.utf8EncodeChar c ≠ [] := by
      rw [← List.length_pos_iff, String.length_utf8EncodeChar]
      exact c.utf8Size_pos
    obtain ⟨b, hb⟩ := List.exists_mem_of_ne_nil _ hne
    exact utf8Size_of_mem hb (h b hb)
  · intro hsize b hb
    rw [UInt8.lt_iff_toNat_lt]
    rcases toNat_of_mem_utf8EncodeChar hb with ⟨hc, heq⟩ | ⟨hle, -⟩
    · exact heq ▸ hc
    · have hc := utf8Size_eq_one_iff.mp hsize
      omega

/-- Only a line feed has the byte of one. -/
theorem ne_ten_of_mem_utf8EncodeChar {c : Char} (hc : c ≠ '\n') :
    ∀ b ∈ String.utf8EncodeChar c, (b == 10) = false := by
  intro b hb
  have hcode : c.toNat ≠ 10 := fun h => hc (Char.toNat_inj.mp h)
  rw [beq_eq_false_iff_ne]
  rintro rfl
  rcases toNat_of_mem_utf8EncodeChar hb with ⟨-, h⟩ | ⟨-, h⟩
  · exact hcode h.symm
  · exact absurd h (by decide)

theorem countP_bytes (s : List Char) :
    (bytes s).countP (· == 10) = s.countP (· == '\n') := by
  induction s with
  | nil => rfl
  | cons c rest ih =>
    rw [bytes, List.flatMap_cons, List.countP_append, ← bytes, ih, List.countP_cons, Nat.add_comm]
    by_cases hc : c = '\n'
    · subst hc
      rfl
    · have hnone := List.countP_eq_zero.mpr fun b hb =>
        Bool.eq_false_iff.mp (ne_ten_of_mem_utf8EncodeChar hc b hb)
      simp [hnone, hc]

/-- The bytes of whole lines are whole lines. -/
theorem areLines_bytes {lines : List Char} (h : AreLines (· == '\n') lines) :
    AreLines (· == 10) (bytes lines) := by
  rcases List.eq_nil_or_concat lines with rfl | ⟨init, c, rfl⟩
  · simp [AreLines, bytes]
  · have hc : c = '\n' := by simpa [AreLines] using h
    rw [hc, List.concat_eq_append, bytes_append]
    simp [AreLines, bytes, String.utf8EncodeChar]

theorem ne_ten_of_mem_bytes {line : List Char} (h : ∀ c ∈ line, (c == '\n') = false) :
    ∀ b ∈ bytes line, (b == 10) = false := by
  intro b hb
  obtain ⟨c, hc, hb⟩ := List.mem_flatMap.mp hb
  exact ne_ten_of_mem_utf8EncodeChar (beq_eq_false_iff_ne.mp (h c hc)) b hb

/-- The bytes of a character before one of its bytes are no line feed. -/
theorem ne_ten_of_mem_take {after : List Char} {j : Nat} (hj : ∀ c ∈ after.head?, j < c.utf8Size) :
    ∀ b ∈ (bytes after).take j, (b == 10) = false := by
  intro b hb
  cases after with
  | nil => simp [bytes] at hb
  | cons c rest =>
    have hlt := hj c rfl
    rw [bytes, List.flatMap_cons,
      List.take_append_of_le_length (by rw [String.length_utf8EncodeChar]; exact hlt.le)] at hb
    refine ne_ten_of_mem_utf8EncodeChar ?_ b (List.mem_of_mem_take hb)
    rintro rfl
    obtain rfl : j = 0 := Nat.lt_one_iff.mp hlt
    simp at hb

/-- A byte of a text is one of a character, or the end of the text. -/
theorem exists_character {s : List Char} {o : Nat} (h : o ≤ byteLength s) :
    ∃ before after j, s = before ++ after ∧ o = byteLength before + j ∧ j ≤ byteLength after ∧
      ∀ c ∈ after.head?, j < c.utf8Size := by
  induction s generalizing o with
  | nil => exact ⟨[], [], 0, rfl, by simpa using h, by simp, by simp⟩
  | cons c rest ih =>
    rw [byteLength_cons] at h
    by_cases hlt : o < c.utf8Size
    · exact ⟨[], c :: rest, o, rfl, by simp, by rw [byteLength_cons]; omega, by simpa using hlt⟩
    · obtain ⟨before, after, j, rfl, ho, hj, hhead⟩ := ih (o := o - c.utf8Size) (by omega)
      exact ⟨c :: before, after, j, rfl, by rw [byteLength_cons]; omega, hj, hhead⟩

/-- The place of a byte, from the lines before it and from its own line. -/
theorem following_bytes {lines line after : List Char} {j : Nat}
    (hlines : AreLines (· == '\n') lines) (hline : ∀ c ∈ line, (c == '\n') = false)
    (hj : j ≤ byteLength after) (hhead : ∀ c ∈ after.head?, j < c.utf8Size) :
    Json.Position.following (· == 10)
        ((bytes (lines ++ line ++ after)).take (byteLength (lines ++ line) + j)) =
      ⟨lines.countP (· == '\n') + 1, byteLength line + j + 1⟩ := by
  have htake : (bytes (lines ++ line ++ after)).take (byteLength (lines ++ line) + j) =
      bytes lines ++ (bytes line ++ (bytes after).take j) := by
    rw [bytes_append, ← length_bytes, List.take_length_add_append, bytes_append, List.append_assoc]
  have hbytes : ∀ b ∈ bytes line ++ (bytes after).take j, (b == 10) = false := by
    intro b hb
    rcases List.mem_append.mp hb with hb | hb
    · exact ne_ten_of_mem_bytes hline b hb
    · exact ne_ten_of_mem_take hhead b hb
  rw [htake, following_append (areLines_bytes hlines) hbytes, countP_bytes, List.length_append,
    List.length_take, length_bytes, length_bytes, Nat.min_eq_left hj]

end Utf8
end MessageCard
