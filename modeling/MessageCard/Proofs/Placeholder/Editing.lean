import Mathlib.Data.List.Basic
import Mathlib.Data.List.TakeWhile
import MessageCard.Placeholder.Editing
import MessageCard.Proofs.Placeholder.Segments

/-!
# Editing a template in place

`Fills` says what filling is, without bytes and without an order of edits. Editing gives exactly
that, and so does the pass that holds characters back. For the edits the reason is an invariant:
after the text behind some place has been edited, the text before it is as it was found, so the
bytes of the placeholders there still are.
-/
namespace MessageCard

/-! ## Bytes of a text -/

/-- A text is cut between two parts at the length of the first. -/
theorem splitAtByte?_append (before after : List Char) :
    splitAtByte? (byteLength before) (before ++ after) = some (before, after) := by
  induction before with
  | nil => simp [splitAtByte?]
  | cons c rest ih =>
    have hpos : 0 < c.utf8Size := c.utf8Size_pos
    obtain ⟨n, hn⟩ : ∃ n, c.utf8Size + byteLength rest = n + 1 :=
      ⟨c.utf8Size + byteLength rest - 1, by omega⟩
    have hrest : n + 1 - c.utf8Size = byteLength rest := by omega
    rw [byteLength_cons, hn, List.cons_append, splitAtByte?, if_pos (by omega), hrest, ih]
    rfl

/-- A part of a text is replaced by its bytes. -/
theorem replaceBytes?_append (before old value after : List Char) :
    replaceBytes? ⟨byteLength before, byteLength (before ++ old)⟩ value (before ++ old ++ after) =
      some (before ++ value ++ after) := by
  simp only [replaceBytes?, splitAtByte?_append, Option.bind_eq_bind, Option.bind_some]
  rfl

namespace Placeholder

/-! ## Placeholders of a text -/

theorem not_isNameChar_close : ¬isNameChar '\x7d' = true := by decide

theorem not_isNameChar_open : ¬isNameChar '\x7b' = true := by decide

/-- What a text begins with, if it begins with a placeholder. -/
theorem nameAt?_eq_some_iff {text name : List Char} :
    nameAt? text = some name ↔
      IsName name ∧ ∃ after, text = '\x7b' :: (name ++ '\x7d' :: after) := by
  cases text with
  | nil => simp [nameAt?]
  | cons c rest =>
    constructor
    · intro h
      simp only [nameAt?] at h
      split at h
      · next hparts =>
        obtain ⟨rfl, hne, hclose⟩ := hparts
        obtain rfl : rest.takeWhile isNameChar = name := by simpa using h
        refine ⟨⟨hne, fun d hd => List.mem_takeWhile_imp hd⟩, ?_⟩
        obtain ⟨after, hafter⟩ := List.head?_eq_some_iff.mp hclose
        refine ⟨after, ?_⟩
        rw [← hafter, List.takeWhile_append_dropWhile]
      · exact absurd h (by simp)
    · rintro ⟨hname, after, htext⟩
      obtain ⟨rfl, rfl⟩ := List.cons.inj htext
      have htake : (name ++ '\x7d' :: after).takeWhile isNameChar = name := by
        rw [List.takeWhile_append_of_pos hname.2,
          List.takeWhile_cons_of_neg not_isNameChar_close, List.append_nil]
      have hdrop : (name ++ '\x7d' :: after).dropWhile isNameChar = '\x7d' :: after := by
        rw [List.dropWhile_append_of_pos hname.2,
          List.dropWhile_cons_of_neg not_isNameChar_close]
      simp [nameAt?, htake, hdrop, hname.1]

theorem ne_hole_of_nameAt? {text name : List Char} (h : nameAt? text = none) (hname : IsName name)
    (after : List Char) : text ≠ '\x7b' :: (name ++ '\x7d' :: after) := fun htext =>
  absurd (h.symm.trans (nameAt?_eq_some_iff.mpr ⟨hname, after, htext⟩)) (by simp)

theorem occurrencesFrom_hole (offset : Nat) {name : List Char} (hname : IsName name)
    (after : List Char) :
    occurrencesFrom offset ('\x7b' :: (name ++ '\x7d' :: after)) =
      ⟨⟨offset, offset + byteLength name + 2⟩, name⟩ ::
        occurrencesFrom (offset + byteLength name + 2) after := by
  have hrest : (name ++ '\x7d' :: after).drop (name.length + 1) = after := by
    rw [List.append_cons, List.drop_left' (by simp)]
  rw [occurrencesFrom, nameAt?_eq_some_iff.mpr ⟨hname, after, rfl⟩]
  simp only [hrest]

theorem occurrencesFrom_cons (offset : Nat) {c : Char} {rest : List Char}
    (h : nameAt? (c :: rest) = none) :
    occurrencesFrom offset (c :: rest) = occurrencesFrom (offset + c.utf8Size) rest := by
  rw [occurrencesFrom, h]

/-- A text is empty, begins with a placeholder, or begins with a character that begins none. -/
theorem byPlaceholder {motive : List Char → Prop} (nil : motive [])
    (hole : ∀ name after, IsName name → motive after →
      motive ('\x7b' :: (name ++ '\x7d' :: after)))
    (char : ∀ c rest, nameAt? (c :: rest) = none → motive rest → motive (c :: rest))
    (text : List Char) : motive text := by
  induction h : text.length using Nat.strongRecOn generalizing text with
  | ind n ih =>
    subst h
    cases text with
    | nil => exact nil
    | cons c rest =>
      cases hat : nameAt? (c :: rest) with
      | none => exact char c rest hat (ih _ (by simp) rest rfl)
      | some name =>
        obtain ⟨hname, after, htext⟩ := nameAt?_eq_some_iff.mp hat
        rw [htext]
        refine hole name after hname (ih _ ?_ after rfl)
        simp only [htext, List.length_cons, List.length_append]
        omega

theorem byteLength_hole (name rest : List Char) :
    byteLength ('\x7b' :: (name ++ '\x7d' :: rest)) = byteLength name + 2 + byteLength rest := by
  have hopen : ('\x7b').utf8Size = 1 := rfl
  have hclose : ('\x7d').utf8Size = 1 := rfl
  rw [byteLength_cons, byteLength_append, byteLength_cons, hopen, hclose]
  omega

/-- No placeholder begins inside another. -/
theorem exists_behind_hole {name after before rest : List Char} (hname : IsName name)
    (h : name ++ '\x7d' :: after = before ++ '\x7b' :: rest) :
    ∃ gap, before = name ++ '\x7d' :: gap ∧ after = gap ++ '\x7b' :: rest := by
  rcases List.append_eq_append_iff.mp h with ⟨gap, rfl, hgap⟩ | ⟨within, rfl, hwithin⟩
  · cases gap with
    | nil => simp at hgap
    | cons c gap =>
      obtain ⟨rfl, rfl⟩ := List.cons.inj hgap
      exact ⟨gap, rfl, rfl⟩
  · cases within with
    | nil => simp at hwithin
    | cons c within =>
      obtain ⟨rfl, -⟩ := List.cons.inj hwithin
      exact absurd (hname.2 _ (by simp)) not_isNameChar_open

theorem mem_occurrencesFrom_iff (offset : Nat) (text : List Char) (span : Span)
    (name : List Char) :
    ⟨span, name⟩ ∈ occurrencesFrom offset text ↔
      ∃ before after, text = before ++ '\x7b' :: (name ++ '\x7d' :: after) ∧ IsName name ∧
        span = ⟨offset + byteLength before, offset + byteLength before + byteLength name + 2⟩ := by
  induction text using byPlaceholder generalizing offset with
  | nil => simp [occurrencesFrom]
  | hole first rest hfirst ih =>
    rw [occurrencesFrom_hole offset hfirst, List.mem_cons, ih]
    constructor
    · rintro (hhead | ⟨before, after, rfl, hname, rfl⟩)
      · obtain ⟨rfl, rfl⟩ := Occurrence.mk.inj hhead
        exact ⟨[], rest, rfl, hfirst, rfl⟩
      · refine ⟨'\x7b' :: (first ++ '\x7d' :: before), after, by simp, hname, ?_⟩
        rw [byteLength_hole]
        simp only [Span.mk.injEq]
        omega
    · rintro ⟨before, after, htext, hname, rfl⟩
      cases before with
      | nil =>
        have hsame : some first = some name :=
          (nameAt?_eq_some_iff.mpr ⟨hfirst, rest, rfl⟩).symm.trans
            (nameAt?_eq_some_iff.mpr ⟨hname, after, htext⟩)
        obtain rfl := Option.some.inj hsame
        exact .inl rfl
      | cons c before =>
        obtain ⟨rfl, htail⟩ := List.cons.inj htext
        obtain ⟨gap, rfl, rfl⟩ := exists_behind_hole hfirst htail
        refine .inr ⟨gap, after, rfl, hname, ?_⟩
        rw [byteLength_hole]
        simp only [Span.mk.injEq]
        omega
  | char c rest hat ih =>
    rw [occurrencesFrom_cons offset hat, ih]
    constructor
    · rintro ⟨before, after, rfl, hname, rfl⟩
      exact ⟨c :: before, after, rfl, hname, by simp [Nat.add_assoc]⟩
    · rintro ⟨before, after, htext, hname, rfl⟩
      cases before with
      | nil => exact absurd htext (ne_hole_of_nameAt? hat hname after)
      | cons d before =>
        obtain ⟨rfl, rfl⟩ := List.cons.inj htext
        exact ⟨before, after, rfl, hname, by simp [Nat.add_assoc]⟩

/-! ## What filling is -/

/-- Whether the first character of a text stays: the text begins with no placeholder that has a
value. -/
def KeepsFirst (value? : List Char → Option (List Char)) (text : List Char) : Prop :=
  ∀ name after, text = '\x7b' :: (name ++ '\x7d' :: after) → IsName name → value? name = none

/-- What a text becomes when all its placeholders are filled at once. A placeholder with a value
gives way to the value, all other characters stay, and what is put in is not looked at again. -/
inductive Fills (value? : List Char → Option (List Char)) : List Char → List Char → Prop where
  | nil : Fills value? [] []
  | hole {name value text out : List Char} :
    IsName name → value? name = some value → Fills value? text out →
      Fills value? ('\x7b' :: (name ++ '\x7d' :: text)) (escape value ++ out)
  | char {c : Char} {text out : List Char} :
    KeepsFirst value? (c :: text) → Fills value? text out → Fills value? (c :: text) (c :: out)

section
variable {value? : List Char → Option (List Char)}

theorem fillFrom_none_cons {c : Char} (h : c ≠ '\x7b') (rest : List Char) :
    fillFrom value? none (c :: rest) = c :: fillFrom value? none rest := by
  rw [fillFrom, if_neg h]

/-- Characters that have been held back are given out unchanged, if what is open is not closed as a
placeholder with a value. -/
theorem fillFrom_some_of_no_value {held rest : List Char}
    (hheld : ∀ c ∈ held, isNameChar c = true)
    (h : ∀ name after, rest = name ++ '\x7d' :: after → IsName (held.reverse ++ name) →
      value? (held.reverse ++ name) = none) :
    fillFrom value? (some held) rest =
      '\x7b' :: (held.reverse ++ fillFrom value? none rest) := by
  induction rest generalizing held with
  | nil => simp [fillFrom]
  | cons c rest ih =>
    by_cases hclose : c = '\x7d'
    · subst hclose
      have hfill : fill value? held.reverse = '\x7b' :: (held.reverse ++ ['\x7d']) := by
        by_cases hne : held.reverse = []
        · simp [fill, hne]
        · have hnone := h [] rest rfl (by simpa [IsName] using ⟨by simpa using hne, hheld⟩)
          rw [List.append_nil] at hnone
          rw [fill, if_neg hne, hnone]
      rw [fillFrom_none_cons (by decide), fillFrom, if_pos rfl, hfill]
      simp
    by_cases hopen : c = '\x7b'
    · subst hopen
      have hnext : fillFrom value? none ('\x7b' :: rest) = fillFrom value? (some []) rest := by
        rw [fillFrom, if_pos rfl]
      rw [hnext, fillFrom, if_neg hclose, if_pos rfl]
    by_cases hc : isNameChar c = true
    · have hnext : ∀ d ∈ c :: held, isNameChar d = true := by
        simpa using ⟨hc, hheld⟩
      rw [fillFrom_none_cons hopen, fillFrom, if_neg hclose, if_neg hopen, if_pos hc, ih hnext]
      · simp
      · rintro name after rfl hname
        have hnone := h (c :: name) after rfl
        simp only [List.reverse_cons, List.append_assoc, List.singleton_append] at hname ⊢
        exact hnone hname
    · rw [fillFrom_none_cons hopen, fillFrom, if_neg hclose, if_neg hopen, if_neg hc]

theorem fillAll_cons {c : Char} {rest : List Char} (h : KeepsFirst value? (c :: rest)) :
    fillAll value? (c :: rest) = c :: fillAll value? rest := by
  by_cases hopen : c = '\x7b'
  · subst hopen
    rw [fillAll, fillFrom, if_pos rfl, fillFrom_some_of_no_value (by simp)]
    · rfl
    · rintro name after rfl hname
      exact h name after rfl hname
  · exact fillFrom_none_cons hopen rest

theorem fillAll_hole_of_value {name value : List Char} (hname : IsName name)
    (hvalue : value? name = some value) (rest : List Char) :
    fillAll value? ('\x7b' :: (name ++ '\x7d' :: rest)) = escape value ++ fillAll value? rest := by
  rw [fillAll_hole value? hname, fill, if_neg hname.1, hvalue]

theorem keepsFirst_of_nameAt?_eq_none {text : List Char} (h : nameAt? text = none) :
    KeepsFirst value? text := fun _ after htext hname =>
  absurd htext (ne_hole_of_nameAt? h hname after)

/-- The first character of a text stays, or the text begins with a placeholder to be replaced. -/
theorem keepsFirst_or (value? : List Char → Option (List Char)) (text : List Char) :
    KeepsFirst value? text ∨ ∃ name value after, text = '\x7b' :: (name ++ '\x7d' :: after) ∧
      IsName name ∧ value? name = some value := by
  by_cases h : KeepsFirst value? text
  · exact .inl h
  · simp only [KeepsFirst, not_forall] at h
    obtain ⟨name, after, htext, hname, hvalue⟩ := h
    obtain ⟨value, hvalue⟩ := Option.ne_none_iff_exists'.mp hvalue
    exact .inr ⟨name, value, after, htext, hname, hvalue⟩

theorem fills_fillAll (value? : List Char → Option (List Char)) (text : List Char) :
    Fills value? text (fillAll value? text) := by
  induction h : text.length using Nat.strongRecOn generalizing text with
  | ind n ih =>
    subst h
    rcases keepsFirst_or value? text with hkeeps | ⟨name, value, after, rfl, hname, hvalue⟩
    · cases text with
      | nil => exact .nil
      | cons c rest =>
        rw [fillAll_cons hkeeps]
        exact .char hkeeps (ih _ (by simp) rest rfl)
    · rw [fillAll_hole_of_value hname hvalue]
      refine .hole hname hvalue (ih _ ?_ after rfl)
      simp only [List.length_cons, List.length_append]
      omega

/-- A text is filled in one way, the one found in a single pass. -/
theorem fills_iff {text out : List Char} : Fills value? text out ↔ out = fillAll value? text := by
  refine ⟨fun h => ?_, ?_⟩
  · induction h with
    | nil => rfl
    | hole hname hvalue _ ih => rw [fillAll_hole_of_value hname hvalue, ih]
    | char hkeeps _ ih => rw [fillAll_cons hkeeps, ih]
  · rintro rfl
    exact fills_fillAll value? text

/-! ## Edits -/

theorem edits_cons_of_none {o : Occurrence} (h : value? o.name = none) (found : List Occurrence) :
    edits value? (o :: found) = edits value? found := by
  simp [edits, h]

theorem edits_cons_of_some {o : Occurrence} {value : List Char} (h : value? o.name = some value)
    (found : List Occurrence) :
    edits value? (o :: found) = (o.span, value) :: edits value? found := by
  simp [edits, h]

theorem edits_congr {other? : List Char → Option (List Char)} {found : List Occurrence}
    (h : ∀ o ∈ found, value? o.name = other? o.name) : edits value? found = edits other? found :=
  List.filterMap_congr fun o ho => by rw [h o ho]

/-- The first edit is made last. -/
theorem applyEdits?_cons (span : Span) (value : List Char) (rest : List (Span × List Char))
    (text : List Char) :
    applyEdits? ((span, value) :: rest) text =
      (applyEdits? rest text).bind (replaceBytes? span (escape value)) := by
  simp [applyEdits?, List.foldlM_append]

/-- Editing what stands behind some text fills it and leaves that text as it is. The induction is
on the placeholders from left to right. When the first of them is replaced, all that follow it have
been, and its bytes are where they were. -/
theorem applyEdits?_occurrencesFrom (before text : List Char) :
    applyEdits? (edits value? (occurrencesFrom (byteLength before) text)) (before ++ text) =
      some (before ++ fillAll value? text) := by
  induction text using byPlaceholder generalizing before with
  | nil => simp [occurrencesFrom, edits, applyEdits?, fillAll, fillFrom]
  | hole name rest hname ih =>
    have hstop : byteLength before + byteLength name + 2 =
        byteLength (before ++ '\x7b' :: (name ++ ['\x7d'])) := by
      rw [byteLength_append, byteLength_hole, byteLength_nil]
      omega
    have htext : before ++ '\x7b' :: (name ++ '\x7d' :: rest) =
        before ++ '\x7b' :: (name ++ ['\x7d']) ++ rest := by simp
    rw [occurrencesFrom_hole _ hname, hstop, htext]
    cases hvalue : value? name with
    | none =>
      rw [edits_cons_of_none hvalue, ih, fillAll_hole value? hname, fill, if_neg hname.1, hvalue]
      simp
    | some value =>
      rw [edits_cons_of_some hvalue, applyEdits?_cons, ih, Option.bind_some,
        replaceBytes?_append, fillAll_hole_of_value hname hvalue, List.append_assoc]
  | char c rest hat ih =>
    have hstart : byteLength before + c.utf8Size = byteLength (before ++ [c]) := by simp
    have htext : before ++ c :: rest = before ++ [c] ++ rest := List.append_cons ..
    rw [occurrencesFrom_cons _ hat, fillAll_cons (keepsFirst_of_nameAt?_eq_none hat), hstart,
      htext, ih]
    simp

theorem fillInPlace?_eq (value? : List Char → Option (List Char)) (text : List Char) :
    fillInPlace? value? text = some (fillAll value? text) :=
  applyEdits?_occurrencesFrom [] text

end

/-- The bytes that are replaced are those of the placeholders that have values. -/
theorem mem_edits_iff (value? : List Char → Option (List Char)) (text : List Char) (span : Span)
    (value : List Char) :
    (span, value) ∈ edits value? (occurrences text) ↔
      ∃ before name after, text = before ++ '\x7b' :: (name ++ '\x7d' :: after) ∧ IsName name ∧
        value? name = some value ∧
        span = ⟨byteLength before, byteLength before + byteLength name + 2⟩ := by
  simp only [edits, List.mem_filterMap, Option.map_eq_some_iff, Prod.mk.injEq]
  constructor
  · rintro ⟨⟨span, name⟩, hmem, _, hvalue, rfl, rfl⟩
    obtain ⟨before, after, htext, hname, hspan⟩ := (mem_occurrencesFrom_iff ..).mp hmem
    exact ⟨before, name, after, htext, hname, hvalue, by simpa using hspan⟩
  · rintro ⟨before, name, after, htext, hname, hvalue, rfl⟩
    refine ⟨⟨_, name⟩, (mem_occurrencesFrom_iff ..).mpr ?_, value, hvalue, rfl, rfl⟩
    exact ⟨before, after, htext, hname, by simp⟩

/-- Editing in place never fails, and it fills all placeholders of a text at once, as does the pass
from left to right. The bytes that are replaced are those of the placeholders that have values, and
they begin and end between characters, where the text before the placeholder ends and where the text
after it begins. Of the values only those of the names that occur count. -/
theorem filled_in_place (value? other? : List Char → Option (List Char)) (text : List Char) :
    (∀ out, fillInPlace? value? text = some out ↔ Fills value? text out) ∧
    fillInPlace? value? text = some (fillAll value? text) ∧
    (∀ span value, (span, value) ∈ edits value? (occurrences text) ↔
      ∃ before name after, text = before ++ '\x7b' :: (name ++ '\x7d' :: after) ∧ IsName name ∧
        value? name = some value ∧
        span = ⟨byteLength before, byteLength before + byteLength name + 2⟩) ∧
    ((∀ before name after, text = before ++ '\x7b' :: (name ++ '\x7d' :: after) → IsName name →
        value? name = other? name) →
      fillInPlace? value? text = fillInPlace? other? text) := by
  refine ⟨fun out => ?_, fillInPlace?_eq value? text, mem_edits_iff value? text, fun h => ?_⟩
  · rw [fillInPlace?_eq, fills_iff, Option.some.injEq, eq_comm]
  · have hsame : edits value? (occurrences text) = edits other? (occurrences text) :=
      edits_congr fun o ho => by
        obtain ⟨before, after, htext, hname, -⟩ :=
          (mem_occurrencesFrom_iff 0 text o.span o.name).mp ho
        exact h before o.name after htext hname
    rw [fillInPlace?, fillInPlace?, hsame]

/-- A value that looks like a placeholder, one that grows the text, and a name of two bytes behind a
brace that nothing closes. -/
example : fillInPlace? (valueIn [("é", "\x7bb\x7d"), ("b", "\"b\"")] [])
    "\x7ba\x7bé\x7d\x7bb\x7d\x7d".toList = some "\x7ba\x7bb\x7d\\\"b\\\"\x7d".toList := by
  cbv

end Placeholder
end MessageCard
