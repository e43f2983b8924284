import MessageCard.Proofs.Json.Outcome

/-!
# Reading strings

What the reader does inside a string depends on the escape it is in, never on the characters so far.
A string is at least as long in the text as its characters with one more for each quote and each
backslash among them: these two cannot stand alone.
-/
namespace MessageCard.Json

/-- The least number of characters that some characters of a string are written with. -/
def writtenLength (chars : List Char) : Nat :=
  chars.length + chars.count '"' + chars.count '\\'

theorem writtenLength_append (a b : List Char) :
    writtenLength (a ++ b) = writtenLength a + writtenLength b := by
  simp only [writtenLength, List.length_append, List.count_append]
  omega

theorem writtenLength_reverse (chars : List Char) :
    writtenLength chars.reverse = writtenLength chars := by
  simp [writtenLength]

theorem writtenLength_singleton_le (c : Char) : writtenLength [c] ≤ 2 := by
  by_cases hq : c = '"'
  · subst hq
    decide
  · simp only [writtenLength, List.length_singleton, List.count_singleton, beq_iff_eq, if_neg hq]
    split <;> decide

/-- The least number of characters of an escape up to here. -/
def EscapeState.begun : EscapeState → Nat
  | .none => 0
  | .mark => 1
  | _ => 2

/-- Inside a string a character that does not end it either is refused, or adds some characters; the
string so far makes no difference to that. -/
theorem stepText_cases {escape : EscapeState} {c : Char} (hc : escape = .none → c ≠ '"') :
    (∃ f, ∀ (r : ReaderState) isKey chars, r.stepText isKey chars escape c = .error f) ∨
    ∃ (added : List Char) (next : EscapeState),
      writtenLength added + next.begun ≤ escape.begun + 1 ∧
      ∀ (r : ReaderState) isKey chars, r.stepText isKey chars escape c =
        .ok { r with mode := .text isKey (added.reverse ++ chars) next } := by
  cases escape with
  | none =>
    have hq : c ≠ '"' := hc rfl
    by_cases hb : c = '\\'
    · exact .inr ⟨[], .mark, by decide, fun r isKey chars => by simp [ReaderState.stepText, hb]⟩
    by_cases hs : c.toNat < 32
    · exact .inl ⟨⟨.controlCharacter, 1⟩, fun r isKey chars => by
        simp [ReaderState.stepText, hq, hb, hs]⟩
    · refine .inr ⟨[c], .none, ?_, fun r isKey chars => by
        simp [ReaderState.stepText, hq, hb, hs]⟩
      simp [writtenLength, hq, hb, EscapeState.begun]
  | mark =>
    by_cases hu : c = 'u'
    · exact .inr ⟨[], .hex .none 0 0 true, by decide, fun r isKey chars => by
        simp [ReaderState.stepText, hu]⟩
    cases he : ReaderState.shortEscape? c with
    | some d => exact .inr ⟨[d], .none, writtenLength_singleton_le d, fun r isKey chars => by
        simp [ReaderState.stepText, hu, he]⟩
    | none => exact .inl ⟨⟨.invalidEscape, 1⟩, fun r isKey chars => by
        simp [ReaderState.stepText, hu, he]⟩
  | hex high bytes value valid =>
    by_cases hb : bytes + c.utf8Size < 4
    · refine .inr ⟨[], .hex high (bytes + c.utf8Size)
        (value * 16 + (ReaderState.hexValue? c).getD 0)
        (valid && (ReaderState.hexValue? c).isSome), Nat.le_succ 2, fun r isKey chars => ?_⟩
      simp only [ReaderState.stepText, hb]
      rfl
    by_cases hv : (valid && (ReaderState.hexValue? c).isSome) = true
    · cases he : ReaderState.endHex high (value * 16 + (ReaderState.hexValue? c).getD 0) with
      | ok r =>
        cases r with
        | inl d =>
          refine .inr ⟨[d], .none, Nat.le_succ_of_le (writtenLength_singleton_le d), ?_⟩
          intro r isKey chars
          simp [ReaderState.stepText, hb, hv, he]
        | inr h => exact .inr ⟨[], .pair h, by simp [writtenLength, EscapeState.begun],
            fun r isKey chars => by simp [ReaderState.stepText, hb, hv, he]⟩
      | error e => exact .inl ⟨⟨e, 1⟩, fun r isKey chars => by
          simp [ReaderState.stepText, hb, hv, he]⟩
    · exact .inl ⟨⟨.invalidEscape, 4 - bytes⟩, fun r isKey chars => by
        simp [ReaderState.stepText, hb, hv]⟩
  | pair high =>
    by_cases hb : c = '\\'
    · exact .inr ⟨[], .pairMark high, by simp [writtenLength, EscapeState.begun],
        fun r isKey chars => by simp [ReaderState.stepText, hb]⟩
    · exact .inl ⟨⟨.endOfHexEscape, 1⟩, fun r isKey chars => by
        simp [ReaderState.stepText, hb]⟩
  | pairMark high =>
    by_cases hu : c = 'u'
    · exact .inr ⟨[], .hex (some high) 0 0 true, by simp [writtenLength, EscapeState.begun],
        fun r isKey chars => by simp [ReaderState.stepText, hu]⟩
    · exact .inl ⟨⟨.endOfHexEscape, 1⟩, fun r isKey chars => by
        simp [ReaderState.stepText, hu]⟩

namespace ReaderState

/-- A reader inside a string, not within an escape, with the characters so far, the last one
first. -/
def inside (r : ReaderState) (isKey : Bool) (chars : List Char) : ReaderState :=
  { r with mode := .text isKey chars .none }

theorem step_inside_plain (r : ReaderState) (isKey : Bool) (chars : List Char) {c : Char}
    (hq : c ≠ '"') (hb : c ≠ '\\') (hc : 32 ≤ c.toNat) :
    (r.inside isKey chars).step c = .ok (r.inside isKey (c :: chars)) := by
  simp [inside, step, stepText, hq, hb, Nat.not_lt.mpr hc]

/-- A wrong digit in an escape is not made good. -/
theorem outcome?_wrongDigit {r : ReaderState} {isKey : Bool} {chars : List Char}
    {high : Option Nat} {bytes value : Nat}
    (hr : r.mode = .text isKey chars (.hex high bytes value false)) (rest : List Char) :
    r.outcome? rest = none := by
  induction rest generalizing r bytes value with
  | nil => simp [outcome?_nil, finish, hr, Except.toOption]
  | cons c rest ih =>
    by_cases hb : bytes + c.utf8Size < 4
    · have hstep : r.step c = .ok { r with mode := .text isKey chars (.hex high
          (bytes + c.utf8Size) (value * 16 + (hexValue? c).getD 0) false) } := by
        simp [step, hr, stepText, hb]
      rw [outcome?, after?_cons_of_ok hstep]
      exact ih rfl
    · have hstep : r.step c = .error ⟨.invalidEscape, 4 - bytes⟩ := by
        simp [step, hr, stepText, hb]
      rw [outcome?, after?_cons_of_error hstep, Option.bind_none]

/-- A closing brace belongs to no escape. -/
theorem outcome?_brace {r : ReaderState} {isKey : Bool} {chars : List Char}
    {escape : EscapeState} (hr : r.mode = .text isKey chars escape) (he : escape ≠ .none)
    (rest : List Char) : r.outcome? ('\x7d' :: rest) = none := by
  have refused {f : StepFault} (hstep : r.step '\x7d' = .error f) :
      r.outcome? ('\x7d' :: rest) = none := by
    rw [outcome?, after?_cons_of_error hstep, Option.bind_none]
  cases escape with
  | none => exact absurd rfl he
  | mark => exact refused (f := ⟨.invalidEscape, 1⟩) (by rw [step, hr]; rfl)
  | hex high bytes value valid =>
    have hdigit : hexValue? '\x7d' = none := by decide
    by_cases hb : bytes + '\x7d'.utf8Size < 4
    · have hstep : r.step '\x7d' = .ok { r with mode := .text isKey chars (.hex high
          (bytes + '\x7d'.utf8Size) (value * 16) false) } := by
        simp only [step, hr, stepText, hb, hdigit]
        simp
      rw [outcome?, after?_cons_of_ok hstep]
      exact outcome?_wrongDigit rfl rest
    · refine refused (f := ⟨.invalidEscape, 4 - bytes⟩) ?_
      simp only [step, hr, stepText, hb, hdigit]
      simp
  | pair high => exact refused (f := ⟨.endOfHexEscape, 1⟩) (by rw [step, hr]; rfl)
  | pairMark high => exact refused (f := ⟨.endOfHexEscape, 1⟩) (by rw [step, hr]; rfl)

/-! ## A document that is a string -/

/-- After some characters of a document that began with a quote: the string is still open, or it is
the document; either way it is no longer than it may be. -/
inductive StringSoFar (used : Nat) : ReaderState → Prop where
  | unfinished (chars : List Char) (escape : EscapeState)
      (short : writtenLength chars + escape.begun ≤ used) :
      StringSoFar used ⟨[], .text false chars escape, none⟩
  | finished (chars : List Char) (short : writtenLength chars + 1 ≤ used) :
      StringSoFar used ⟨[], .afterValue, some (.string (.ofList chars))⟩

theorem StringSoFar.step {used : Nat} {r s : ReaderState} {c : Char} (h : StringSoFar used r)
    (hs : r.step c = .ok s) : StringSoFar (used + 1) s := by
  cases h with
  | unfinished chars escape short =>
    by_cases hend : escape = .none ∧ c = '"'
    · obtain ⟨rfl, rfl⟩ := hend
      obtain rfl : _ = s := Except.ok.inj hs
      refine .finished chars.reverse ?_
      rw [writtenLength_reverse]
      exact Nat.succ_le_succ short
    · rcases stepText_cases (c := c) (fun he hc => hend ⟨he, hc⟩) with
        ⟨f, hf⟩ | ⟨added, next, hlength, h⟩
      · exact absurd ((hf _ _ _).symm.trans hs) (by simp)
      · obtain rfl := Except.ok.inj ((h _ _ _).symm.trans hs)
        refine .unfinished (added.reverse ++ chars) next ?_
        rw [writtenLength_append, writtenLength_reverse]
        omega
  | finished chars short =>
    by_cases hc : blankChars.contains c
    · obtain rfl : _ = s := Except.ok.inj ((if_pos hc).symm.trans hs)
      exact .finished chars (by omega)
    · exact absurd ((if_neg hc).symm.trans hs) (by simp)

theorem StringSoFar.after {used : Nat} {r s : ReaderState} {text : List Char}
    (h : StringSoFar used r) (hs : r.after? text = some s) :
    StringSoFar (used + text.length) s := by
  induction text generalizing r used with
  | nil => exact Option.some.inj hs ▸ h
  | cons c rest ih =>
    cases hstep : r.step c with
    | error f => simp [after?_cons_of_error hstep] at hs
    | ok t =>
      rw [after?_cons_of_ok hstep] at hs
      have hrest := ih (h.step hstep) hs
      rwa [List.length_cons, Nat.add_comm rest.length, ← Nat.add_assoc]

end ReaderState

/-- A document that is a string is written with at least the characters that the string needs, and
two quotes. -/
theorem writtenLength_le_of_ofChars {text : List Char} {s : String}
    (h : ofChars ('"' :: text) = .ok (.string s)) : writtenLength s.toList + 1 ≤ text.length := by
  rw [ofChars_eq_ok_iff] at h
  obtain ⟨r, hr, hfinish⟩ := Option.bind_eq_some_iff.mp h
  have hbegin : ReaderState.StringSoFar 0 (ReaderState.initial.inside false []) :=
    .unfinished [] .none (Nat.le_refl _)
  have hend : ReaderState.StringSoFar (0 + text.length) r := hbegin.after hr
  rw [Nat.zero_add] at hend
  cases hend with
  | unfinished chars escape short => exact absurd hfinish (by simp [ReaderState.finish,
      Except.toOption])
  | finished chars short =>
    obtain rfl : String.ofList chars = s := by
      simpa [ReaderState.finish, ReaderState.finishAfter, Except.toOption] using hfinish
    rwa [String.toList_ofList]

end MessageCard.Json
