import Mathlib.Data.List.Basic
import MessageCard.Svg.Escape

/-!
# Reading entities

What is written in XML is read back here, character by character. The reader is a strict one: an
ampersand starts one of the five entities, and the other characters that mean something in XML stand
for nothing. So a text has one spelling only, the one that it is given.
-/
namespace MessageCard.Svg

/-- The character that the name of an entity stands for. -/
def named? : List Char → Option Char
  | ['a', 'm', 'p'] => some '&'
  | ['l', 't'] => some '<'
  | ['g', 't'] => some '>'
  | ['q', 'u', 'o', 't'] => some '"'
  | ['a', 'p', 'o', 's'] => some '\''
  | _ => none

/-- The text that is written, where the name of an entity may have begun. -/
def decodeFrom : Option (List Char) → List Char → Option (List Char)
  | none, [] => some []
  | some _, [] => none
  | none, c :: rest =>
    if c = '&' then decodeFrom (some []) rest
    else if c ∈ special then none
    else (decodeFrom none rest).map (c :: ·)
  | some name, c :: rest =>
    if c = ';' then (named? name).bind fun d => (decodeFrom none rest).map (d :: ·)
    else decodeFrom (some (name ++ [c])) rest

/-- The text that is written, unless a character that means something in XML stands bare in it. -/
def decode? (written : List Char) : Option (List Char) := decodeFrom none written

/-! ## Escaping -/

theorem entity_of_not_mem {c : Char} (h : c ∉ special) : entity c = [c] := by
  simp only [special, List.mem_cons, List.not_mem_nil, or_false, not_or] at h
  obtain ⟨hamp, hlt, hgt, hquot, hapos⟩ := h
  unfold entity
  split <;> first | contradiction | rfl

/-- The five passes amount to one, since none of them meets what an earlier one has written. -/
theorem escape_eq_flatMap (s : List Char) : escape s = s.flatMap entity := by
  simp only [escape, special, List.foldl_cons, List.foldl_nil, replaceChar, List.flatMap_assoc]
  refine List.flatMap_congr fun c _ => ?_
  by_cases hc : c ∈ special
  · simp only [special, List.mem_cons, List.not_mem_nil, or_false] at hc
    obtain rfl | rfl | rfl | rfl | rfl := hc <;> decide
  · rw [entity_of_not_mem hc]
    simp only [special, List.mem_cons, List.not_mem_nil, or_false, not_or] at hc
    simp [hc]

theorem escape_cons (c : Char) (s : List Char) : escape (c :: s) = entity c ++ escape s := by
  simp only [escape_eq_flatMap, List.flatMap_cons]

theorem decodeFrom_entity (c : Char) (rest : List Char) :
    decodeFrom none (entity c ++ rest) = (decodeFrom none rest).map (c :: ·) := by
  by_cases hc : c ∈ special
  · simp only [special, List.mem_cons, List.not_mem_nil, or_false] at hc
    obtain rfl | rfl | rfl | rfl | rfl := hc <;> simp [entity, decodeFrom, named?]
  · have hamp : c ≠ '&' := fun h => hc (by simp [h, special])
    simp [entity_of_not_mem hc, decodeFrom, hamp, hc]

/-- What is written is read back. -/
@[simp] theorem decode?_escape (s : List Char) : decode? (escape s) = some s := by
  induction s with
  | nil => rfl
  | cons c rest ih =>
    rw [decode?] at ih ⊢
    rw [escape_cons, decodeFrom_entity, ih, Option.map_some]

/-- Of the characters that mean something in XML only the ampersand stands in what is written. -/
theorem not_mem_escape {d : Char} (hd : d ∈ special) (hamp : d ≠ '&') (s : List Char) :
    d ∉ escape s := by
  rw [escape_eq_flatMap, List.mem_flatMap]
  rintro ⟨c, -, hmem⟩
  by_cases hc : c ∈ special
  · simp only [special, List.mem_cons, List.not_mem_nil, or_false] at hc hd
    obtain rfl | rfl | rfl | rfl | rfl := hc <;>
      obtain rfl | rfl | rfl | rfl | rfl := hd <;>
      simp [entity] at hmem hamp
  · rw [entity_of_not_mem hc, List.mem_singleton] at hmem
    exact hc (hmem ▸ hd)

theorem named?_eq_some {name : List Char} {c : Char} (h : named? name = some c) :
    '&' :: (name ++ [';']) = entity c := by
  unfold named? at h
  split at h <;> cases h <;> rfl

theorem eq_escape_of_decodeFrom (name : Option (List Char)) (written s : List Char)
    (h : decodeFrom name written = some s) :
    (name.elim [] ('&' :: ·)) ++ written = escape s := by
  fun_induction decodeFrom name written generalizing s with
  | case1 => cases h; rfl
  | case2 => cases h
  | case3 rest ih => simpa using ih s h
  | case4 => cases h
  | case5 c rest hamp hc ih =>
    obtain ⟨t, ht, rfl⟩ := Option.map_eq_some_iff.mp h
    rw [escape_cons, entity_of_not_mem hc, ← ih t ht]
    rfl
  | case6 name rest ih =>
    obtain ⟨d, hd, hrest⟩ := Option.bind_eq_some_iff.mp h
    obtain ⟨t, ht, rfl⟩ := Option.map_eq_some_iff.mp hrest
    rw [escape_cons, ← ih t ht, ← named?_eq_some hd]
    simp
  | case7 name c rest hc ih => simpa using ih s h

/-- A text has one spelling, in which every ampersand starts an entity and no other character that
means something in XML stands. -/
theorem decode?_eq_some_iff {written s : List Char} :
    decode? written = some s ↔ written = escape s :=
  ⟨eq_escape_of_decodeFrom none written s, fun h => h ▸ decode?_escape s⟩

/-! ## Exactness -/

theorem escape_append (s t : List Char) : escape (s ++ t) = escape s ++ escape t := by
  simp only [escape_eq_flatMap, List.flatMap_append]

/-- An ampersand in what is written for a character is the first character of its entity. -/
theorem eq_nil_of_entity_eq {c : Char} {before after : List Char}
    (h : entity c = before ++ '&' :: after) : before = [] ∧ c ∈ special := by
  have htail : '&' ∉ (entity c).tail := by
    unfold entity
    split <;> simp
  cases before with
  | cons d before =>
    rw [h] at htail
    exact absurd (List.mem_append_right before List.mem_cons_self) htail
  | nil =>
    refine ⟨rfl, Decidable.byContradiction fun hc => ?_⟩
    rw [entity_of_not_mem hc] at h
    obtain ⟨rfl, -⟩ := List.cons.inj h
    exact hc List.mem_cons_self

/-- Where an ampersand stands in what is written an entity begins. -/
theorem exists_entity_prefix {s before after : List Char}
    (h : escape s = before ++ '&' :: after) : ∃ c ∈ special, entity c <+: '&' :: after := by
  induction s generalizing before with
  | nil => exact absurd h.symm (List.append_ne_nil_of_right_ne_nil before (List.cons_ne_nil _ _))
  | cons c rest ih =>
    rw [escape_cons] at h
    -- the ampersand stands in the rest of the text, or in what is written for the first character
    rcases List.append_eq_append_iff.mp h with ⟨more, -, hrest⟩ | ⟨more, hentity, hafter⟩
    · exact ih hrest
    · cases more with
      | nil =>
        have hrest : escape rest = [] ++ '&' :: after := hafter.symm
        exact ih hrest
      | cons d more =>
        obtain ⟨rfl, hafter⟩ := List.cons.inj hafter
        obtain ⟨rfl, hc⟩ := eq_nil_of_entity_eq hentity
        exact ⟨c, hc, hentity ▸ hafter ▸ List.prefix_append ('&' :: more) (escape rest)⟩

/-- Escaping is exact for every text. The five replacements, each made in what the ones before it
have left, amount to writing each character once; no character that means something in XML stands
in the outcome but ampersands, each of which begins one of the five entities; the outcome is the one
spelling that is read back as the text; and two texts can be escaped one by one. -/
theorem escape_is_exact (s : List Char) :
    escape s = s.flatMap entity ∧
    (∀ c ∈ special, c ≠ '&' → c ∉ escape s) ∧
    (∀ before after, escape s = before ++ '&' :: after →
      ∃ c ∈ special, entity c <+: '&' :: after) ∧
    (decode? (escape s) = some s ∧ ∀ written, decode? written = some s → written = escape s) ∧
    ∀ t, escape (s ++ t) = escape s ++ escape t :=
  ⟨escape_eq_flatMap s, fun _ hc hamp => not_mem_escape hc hamp s,
    fun _ _ h => exists_entity_prefix h,
    ⟨decode?_escape s, fun _ h => decode?_eq_some_iff.mp h⟩, escape_append s⟩

/-- A text that looks escaped is escaped once more. -/
example : escape "a &lt; b".toList = "a &amp;lt; b".toList := by decide

/-! ## Plain texts -/

/-- A text without characters that mean something in XML. -/
def IsPlain (s : List Char) : Prop := ∀ c ∈ s, c ∉ special

instance (s : List Char) : Decidable (IsPlain s) := List.decidableBAll _ _

theorem isPlain_append {s t : List Char} : IsPlain (s ++ t) ↔ IsPlain s ∧ IsPlain t :=
  List.forall_mem_append

theorem IsPlain.append {s t : List Char} (hs : IsPlain s) (ht : IsPlain t) : IsPlain (s ++ t) :=
  isPlain_append.mpr ⟨hs, ht⟩

theorem IsPlain.of_subset {s t : List Char} (ht : IsPlain t) (h : s ⊆ t) : IsPlain s :=
  fun c hc => ht c (h hc)

/-- A plain text is written as it is. -/
theorem IsPlain.escape_eq {s : List Char} (h : IsPlain s) : escape s = s := by
  induction s with
  | nil => rfl
  | cons c rest ih =>
    obtain ⟨hc, hrest⟩ := List.forall_mem_cons.mp h
    rw [escape_cons, entity_of_not_mem hc, ih hrest, List.singleton_append]

end MessageCard.Svg
