import MessageCard.Proofs.Json.Draft
import MessageCard.Proofs.Placeholder.Segments

/-!
# Binding a JSON template

A template that is valid JSON is a draft: its placeholders are gaps in its strings. Binding is done
on the text, but where a placeholder stands in a string and its value is plain, with no backslash
and no control character, the reader cannot tell the bound text from the draft filled in. Both
conditions count. Only quotes are escaped, so any other value fails to come back from between two
quotes, and a placeholder of blanks outside strings is an empty object.
-/
namespace MessageCard.Placeholder
open Json (Draft DraftState EscapeState Mode Piece ReaderState Valuation)

/-- Whether a text can stand in a JSON string as it is, but for quotes. -/
def IsPlain (v : List Char) : Prop := ∀ c ∈ v, c ≠ '\\' ∧ 32 ≤ c.toNat

/-- Whether a text breaks off inside a JSON string, and not within an escape. -/
def InString (before : List Char) : Prop :=
  ∃ s isKey chars, ReaderState.initial.after? before = some s ∧
    s.mode = .text isKey chars .none

/-- Whether all placeholders with values stand in strings, and their values are plain. -/
def Fits (value? : Valuation) (text : List Char) : Prop :=
  ∀ before name after v, text = before ++ '\x7b' :: (name ++ '\x7d' :: after) → IsName name →
    value? name = some v → InString before ∧ IsPlain v

/-! ## Inside a string -/

theorem escape_cons (c : Char) (rest : List Char) :
    escape (c :: rest) = (if c = '"' then ['\\', '"'] else [c]) ++ escape rest :=
  List.flatMap_cons

/-- A value comes back from a string, if it is plain. -/
theorem after_inside_escape (r : ReaderState) (isKey : Bool) (chars : List Char) {v : List Char}
    (hv : IsPlain v) :
    (r.inside isKey chars).after? (escape v) = some (r.inside isKey (v.reverse ++ chars)) := by
  induction v generalizing chars with
  | nil => rfl
  | cons c rest ih =>
    obtain ⟨hb, hc⟩ := hv c List.mem_cons_self
    have hrest : IsPlain rest := fun d hd => hv d (List.mem_cons_of_mem _ hd)
    have hfirst : (r.inside isKey chars).after? (if c = '"' then ['\\', '"'] else [c]) =
        some (r.inside isKey (c :: chars)) := by
      by_cases hq : c = '"'
      · subst hq
        rfl
      · have hstep := ReaderState.step_inside_plain r isKey chars hq hb hc
        rw [if_neg hq, ReaderState.after?_cons_of_ok hstep]
        rfl
    rw [escape_cons, ReaderState.after?_append, hfirst, Option.bind_some, ih _ hrest]
    simp

/-- In a valid document, a placeholder that begins inside a string is read to its end there. -/
theorem after_hole {s : DraftState} {isKey : Bool} {chars : List Char}
    (hs : s.mode = .text isKey chars .none) {name : List Char} (hname : IsName name)
    {rest : List Char} {j : Json}
    (hj : (s.fill .none).outcome? (Segment.text (.hole name) ++ rest) = some j) :
    ∃ shown : List Char, ∀ value?, (s.fill value?).after? (Segment.text (.hole name)) =
      some ((s.extend isKey .none (('\x7b' :: (shown ++ ['\x7d'])).map .char)).fill value?) := by
  have hopen (value? : Valuation) : (s.fill value?).step '\x7b' =
      .ok ((s.extend isKey .none [.char '\x7b']).fill value?) := by
    rw [DraftState.fill_text hs, DraftState.fill_extend]
    exact ReaderState.step_inside_plain _ _ _ (by decide) (by decide) (by decide)
  have hquote : '"' ∉ name := fun h => absurd (hname.2 _ h) (by decide)
  have hafter (value? : Valuation) : (s.fill value?).after? (Segment.text (.hole name)) =
      (((s.extend isKey .none [.char '\x7b']).fill value?).after? name).bind
        (·.after? ['\x7d']) := by
    rw [Segment.text, ReaderState.after?_cons_of_ok (hopen value?), ReaderState.after?_append]
  rcases DraftState.after_inside (s := s.extend isKey .none [.char '\x7b']) rfl hquote with
    hnone | ⟨shown, next, hshown⟩
  · rw [ReaderState.outcome?_append, hafter, hnone] at hj
    simp at hj
  simp only [hshown, DraftState.extend_extend, Option.bind_some] at hafter
  by_cases hnext : next = .none
  · subst hnext
    refine ⟨shown, fun value? => ?_⟩
    rw [hafter, ReaderState.after?_cons_of_ok (t := (s.extend isKey .none
      (('\x7b' :: (shown ++ ['\x7d'])).map .char)).fill value?)]
    · rfl
    · rw [DraftState.fill_extend, DraftState.fill_extend]
      refine (ReaderState.step_inside_plain _ _ _ (by decide) (by decide) (by decide)).trans ?_
      simp [ReaderState.inside, Json.fillPieces, Piece.fill]
  · have hbrace := ReaderState.outcome?_brace (r := (s.extend isKey next
      ([.char '\x7b'] ++ shown.map .char)).fill .none) rfl hnext rest
    rw [ReaderState.outcome?_append, hafter, ← ReaderState.outcome?_append] at hj
    exact absurd (hbrace.symm.trans hj) (by simp)

/-- A draft in the making that a reader inside a string stands for is inside a string. -/
theorem mode_of_fill_inside {s : DraftState} {isKey : Bool} {chars : List Char}
    (h : (s.fill .none).mode = .text isKey chars .none) :
    ∃ own, s.mode = .text isKey own .none := by
  obtain ⟨containers, mode, pieces, result⟩ := s
  cases mode <;> simp_all [DraftState.fill, Mode.withPieces]

/-! ## Whole templates -/

/-- Whether a segment that begins after some text may be filled. -/
def FitsAt (value? : Valuation) (before : List Char) : Segment → Prop
  | .char _ => True
  | .hole name => ∀ v, value? name = some v → InString before ∧ IsPlain v

/-- Whether segments that begin after some text may be filled. -/
def FitsFrom (value? : Valuation) : List Char → List Segment → Prop
  | _, [] => True
  | before, segment :: rest =>
    FitsAt value? before segment ∧ FitsFrom value? (before ++ segment.text) rest

theorem fitsFrom_of_fits {value? : Valuation} {before : List Char} {segments : List Segment}
    (hnames : ∀ name, .hole name ∈ segments → IsName name)
    (h : Fits value? (before ++ segments.flatMap Segment.text)) :
    FitsFrom value? before segments := by
  induction segments generalizing before with
  | nil => trivial
  | cons segment rest ih =>
    refine ⟨?_, ih (fun name hmem => hnames name (List.mem_cons_of_mem _ hmem)) (by simpa using h)⟩
    cases segment with
    | char c => trivial
    | hole name =>
      intro v hv
      exact h before name (rest.flatMap Segment.text) v (by simp [Segment.text])
        (hnames name List.mem_cons_self) hv

/-- A segment of a valid template leads the template's reader to a draft in the making, and the
reader of the bound text to the same draft, filled in. -/
theorem exists_next {segment : Segment} {before rest : List Char} {s : DraftState} {j : Json}
    (hname : ∀ name, segment = .hole name → IsName name)
    (hs : ReaderState.initial.after? before = some (s.fill .none))
    (hj : (s.fill .none).outcome? (segment.text ++ rest) = some j) :
    ∃ t : DraftState, (s.fill .none).after? segment.text = some (t.fill .none) ∧
      ∀ value?, FitsAt value? before segment →
        (s.fill value?).after? (segment.filled value?) = some (t.fill value?) := by
  by_cases hgap : ∃ name isKey chars, segment = .hole name ∧ s.mode = .text isKey chars .none
  · obtain ⟨name, isKey, chars, rfl, hmode⟩ := hgap
    have hne : name ≠ [] := (hname name rfl).1
    obtain ⟨shown, hshown⟩ := after_hole hmode (hname name rfl) hj
    -- With and without a value the gap stands for what the bound text has in its place.
    have hopen (value? : Valuation) (hvalue : value? name = none) :
        (s.extend isKey .none [.gap name shown]).fill value? =
          (s.extend isKey .none (('\x7b' :: (shown ++ ['\x7d'])).map .char)).fill value? := by
      rw [DraftState.fill_extend, DraftState.fill_extend, Json.fillPieces_gap, hvalue,
        Json.fillPieces_char, Option.getD_none]
    refine ⟨s.extend isKey .none [.gap name shown], ?_, fun value? hfits => ?_⟩
    · rw [hshown, hopen .none rfl]
    · cases hv : value? name with
      | none =>
        rw [Segment.filled, fill, if_neg hne, hv, hopen value? hv]
        exact hshown value?
      | some v =>
        rw [Segment.filled, fill, if_neg hne, hv, DraftState.fill_text hmode,
          DraftState.fill_extend, Json.fillPieces_gap, hv, Option.getD_some]
        exact after_inside_escape _ _ _ (hfits v hv).2
  · rcases s.uniform_after segment.text with hnone | ⟨t, ht⟩
    · rw [ReaderState.outcome?_append, hnone] at hj
      simp at hj
    refine ⟨t, ht _, fun value? hfits => ?_⟩
    have hfilled : segment.filled value? = segment.text := by
      cases segment with
      | char c => rfl
      | hole name =>
        cases hv : value? name with
        | none => simp [Segment.filled, fill, hv, Segment.text]
        | some v =>
          obtain ⟨r, isKey, chars, hr, hmode⟩ := (hfits v hv).1
          obtain rfl : s.fill .none = r := by simpa [hs] using hr
          obtain ⟨own, hown⟩ := mode_of_fill_inside hmode
          exact absurd ⟨name, isKey, own, rfl, hown⟩ hgap
    rw [hfilled]
    exact ht value?

/-- What is left of a valid template makes a draft of what there is, and binding fills the draft.
The induction is on the segments; the reader of the bound text is always where the draft in the
making, filled in, says. -/
theorem exists_draft {segments : List Segment} (before : List Char) {s : DraftState} {j : Json}
    (hnames : ∀ name, .hole name ∈ segments → IsName name)
    (hs : ReaderState.initial.after? before = some (s.fill .none))
    (hj : (s.fill .none).outcome? (segments.flatMap Segment.text) = some j) :
    ∃ d : Draft, d.fill .none = j ∧ ∀ value?, FitsFrom value? before segments →
      (s.fill value?).outcome? (segments.flatMap (Segment.filled value?)) =
        some (d.fill value?) := by
  induction segments generalizing before s with
  | nil =>
    rcases s.uniform_finish with ⟨e, he⟩ | ⟨d, hd⟩
    · simp [ReaderState.outcome?_nil, he, Except.toOption] at hj
    · refine ⟨d, ?_, fun value? _ => ?_⟩
      · simpa [ReaderState.outcome?_nil, hd, Except.toOption] using hj
      · simp [ReaderState.outcome?_nil, hd, Except.toOption]
  | cons segment rest ih =>
    rw [List.flatMap_cons] at hj
    obtain ⟨t, hshown, ht⟩ :=
      exists_next (fun name h => hnames name (h ▸ List.mem_cons_self)) hs hj
    rw [ReaderState.outcome?_append, hshown, Option.bind_some] at hj
    obtain ⟨d, hd, hfill⟩ := ih (before ++ segment.text)
      (fun name h => hnames name (List.mem_cons_of_mem _ h))
      (by rw [ReaderState.after?_append, hs, Option.bind_some, hshown]) hj
    refine ⟨d, hd, fun value? hfits => ?_⟩
    rw [List.flatMap_cons, ReaderState.outcome?_append, ht value? hfits.1, Option.bind_some]
    exact hfill value? hfits.2

/-- A template that is valid JSON is a draft, which binding fills as long as the values fit. -/
theorem exists_draft_of_ofChars {text : List Char} {j : Json} (valid : Json.ofChars text = .ok j) :
    ∃ d : Draft, d.fill .none = j ∧ ∀ value?, Fits value? text →
      Json.ofChars (fillAll value? text) = .ok (d.fill value?) := by
  rw [Json.ofChars_eq_ok_iff, ← text_segments text] at valid
  obtain ⟨d, hd, hfill⟩ := exists_draft [] (s := .initial)
    (fun name h => isName_of_hole_mem h) rfl valid
  refine ⟨d, hd, fun value? hfits => ?_⟩
  rw [Json.ofChars_eq_ok_iff, ← filled_segments]
  exact hfill value? (fitsFrom_of_fits (fun name h => isName_of_hole_mem h)
    (by simpa [text_segments] using hfits))

/-! ## Values that are not plain -/

theorem length_escape (v : List Char) : (escape v).length = v.length + v.count '"' := by
  induction v with
  | nil => rfl
  | cons c rest ih =>
    rw [escape_cons, List.length_append, ih, List.length_cons, List.count_cons]
    by_cases hq : c = '"'
    · simp only [hq, if_true, List.length_cons, List.length_nil, beq_self_eq_true]
      omega
    · simp only [hq, if_false, List.length_singleton, beq_iff_eq]
      omega

/-- Control characters are not taken inside a string. -/
theorem isPlain_of_after_inside_escape {r s : ReaderState} {isKey : Bool} {chars v : List Char}
    (hb : '\\' ∉ v) (h : (r.inside isKey chars).after? (escape v) = some s) : IsPlain v := by
  induction v generalizing chars with
  | nil => exact fun c hc => absurd hc List.not_mem_nil
  | cons c rest ih =>
    have hc : c ≠ '\\' := fun he => hb (he ▸ List.mem_cons_self)
    have hrest : '\\' ∉ rest := fun he => hb (List.mem_cons_of_mem _ he)
    by_cases hq : c = '"'
    · subst hq
      intro d hd
      rcases List.mem_cons.mp hd with rfl | hd
      · decide
      · have hafter : (r.inside isKey ('"' :: chars)).after? (escape rest) = some s := h
        exact ih hrest hafter d hd
    · rw [escape_cons, if_neg hq, List.singleton_append] at h
      have h32 : 32 ≤ c.toNat := by
        refine Nat.le_of_not_lt fun hlt => ?_
        have hstep : (r.inside isKey chars).step c = .error ⟨.controlCharacter, 1⟩ := by
          simp [ReaderState.inside, ReaderState.step, ReaderState.stepText, hq, hc, hlt]
        simp [ReaderState.after?_cons_of_error hstep] at h
      rw [ReaderState.after?_cons_of_ok
        (ReaderState.step_inside_plain r isKey chars hq hc h32)] at h
      intro d hd
      rcases List.mem_cons.mp hd with rfl | hd
      · exact ⟨hc, h32⟩
      · exact ih hrest h d hd

/-- Between two quotes exactly the plain values come back. -/
theorem ofChars_quoted_iff (v : List Char) :
    Json.ofChars ('"' :: (escape v ++ ['"'])) = .ok (.string (.ofList v)) ↔ IsPlain v := by
  have hread : ReaderState.initial.outcome? ('"' :: (escape v ++ ['"'])) =
      ((ReaderState.initial.inside false []).after? (escape v)).bind (·.outcome? ['"']) := by
    rw [← ReaderState.outcome?_append]
    rfl
  constructor
  · intro h
    have hlength := Json.writtenLength_le_of_ofChars h
    simp only [String.toList_ofList, Json.writtenLength, List.length_append, length_escape,
      List.length_singleton] at hlength
    have hb : '\\' ∉ v := List.count_eq_zero.mp (by omega)
    rw [Json.ofChars_eq_ok_iff, hread] at h
    obtain ⟨s, hs, -⟩ := Option.bind_eq_some_iff.mp h
    exact isPlain_of_after_inside_escape hb hs
  · intro hv
    rw [Json.ofChars_eq_ok_iff, hread, after_inside_escape _ _ _ hv, List.append_nil]
    show some (Json.string (.ofList v.reverse.reverse)) = _
    rw [List.reverse_reverse]

/-! ## Placeholders of blanks -/

/-- Blanks between braces are an empty object. -/
theorem ofChars_blankObject {name : List Char} (hname : ∀ c ∈ name, c ∈ Json.blankChars) :
    Json.ofChars ('\x7b' :: (name ++ ['\x7d'])) = .ok (.object []) := by
  have hblank (r : ReaderState) (hr : r.mode = .firstKey) : r.after? name = some r := by
    induction name with
    | nil => rfl
    | cons c rest ih =>
      have hc : Json.blankChars.contains c = true := by
        simpa using hname c List.mem_cons_self
      rw [ReaderState.after?_cons_of_ok (t := r) (by rw [ReaderState.step, hr]; exact if_pos hc)]
      exact ih fun d hd => hname d (List.mem_cons_of_mem _ hd)
  rw [Json.ofChars_eq_ok_iff]
  have hopen : ReaderState.initial.outcome? ('\x7b' :: (name ++ ['\x7d'])) =
      ((⟨[.object [] ""], .firstKey, none⟩ : ReaderState).after? name).bind
        (·.outcome? ['\x7d']) := by
    rw [← ReaderState.outcome?_append]
    rfl
  rw [hopen, hblank _ rfl]
  rfl

theorem valueIn_singleton (name v : String) :
    valueIn [(name, v)] [] name.toList = some v.toList := by
  simp [valueIn, Table.findIn]

/-- A template that is one placeholder, after a text without braces, bound to one value. -/
theorem fillAll_singleton_hole {name : String} (hname : IsName name.toList) (v : String)
    {after : List Char} (hafter : fillAll (valueIn [(name, v)] []) after = after) :
    fillAll (valueIn [(name, v)] []) ('\x7b' :: (name.toList ++ '\x7d' :: after)) =
      escape v.toList ++ after := by
  rw [fillAll_hole _ hname, hafter, fill, if_neg hname.1, valueIn_singleton]

/-- Every template that is valid JSON is a draft, and binding it gives the draft filled in, again
valid JSON, as long as the placeholders with values stand in strings and the values are plain. Both
conditions are needed. Between two quotes exactly the plain values come back; in other templates the
others come back at best by accident, as a backslash does before an escaped slash. And where a
placeholder's name is blank, an empty object is a placeholder too, and the document is whatever is
put in its place. -/
theorem ofText_bind (text name v : String) :
    (∀ j : Json, Json.ofText text = .ok j →
      ∃ d : Draft, d.fill .none = j ∧
        ∀ values colors : List (String × String), Fits (valueIn values colors) text.toList →
          Json.ofText (bind values colors text) = .ok (d.fill (valueIn values colors))) ∧
    (IsName name.toList →
      (Json.ofText (bind [(name, v)] [] ("\"\x7b" ++ name ++ "\x7d\"")) = .ok (.string v) ↔
        IsPlain v.toList)) ∧
    (IsName name.toList → (∀ c ∈ name.toList, c ∈ Json.blankChars) →
      Json.ofText ("\x7b" ++ name ++ "\x7d") = .ok (.object []) ∧
        bind [(name, v)] [] ("\x7b" ++ name ++ "\x7d") = .ofList (escape v.toList)) := by
  refine ⟨fun j valid => ?_, fun hname => ?_, fun hname hblank => ⟨?_, ?_⟩⟩
  · obtain ⟨d, hd, hfill⟩ := exists_draft_of_ofChars valid
    refine ⟨d, hd, fun values colors hfits => ?_⟩
    rw [Json.ofText, bind, String.toList_ofList]
    exact hfill _ hfits
  · have htext : ("\"\x7b" ++ name ++ "\x7d\"").toList =
        '"' :: '\x7b' :: (name.toList ++ '\x7d' :: ['"']) := by simp
    have hfill : fillAll (valueIn [(name, v)] []) ("\"\x7b" ++ name ++ "\x7d\"").toList =
        '"' :: (escape v.toList ++ ['"']) := by
      rw [htext, ← fillAll_singleton_hole hname v rfl]
      rfl
    rw [Json.ofText, bind, String.toList_ofList, hfill]
    simpa using ofChars_quoted_iff v.toList
  · have htext : ("\x7b" ++ name ++ "\x7d").toList = '\x7b' :: (name.toList ++ ['\x7d']) := by simp
    rw [Json.ofText, htext]
    exact ofChars_blankObject hblank
  · have htext : ("\x7b" ++ name ++ "\x7d").toList = '\x7b' :: (name.toList ++ ['\x7d']) := by simp
    rw [bind, htext, fillAll_singleton_hole hname v rfl, List.append_nil]

/-- A placeholder that is a string of a document, and a value with quotes for it. -/
theorem ofText_bind_of_quoted_value :
    let value? := valueIn [("p", "say \"hi\"")] []
    Fits value? "\x7b\"text\":\"\x7bp\x7d\"\x7d".toList ∧ IsName "p".toList ∧
      IsPlain "say \"hi\"".toList ∧
      Json.ofText (bind [("p", "say \"hi\"")] [] "\"\x7bp\x7d\"") = .ok (.string "say \"hi\"") ∧
      ∃ d : Draft, d.fill .none = .object [("text", .string "\x7bp\x7d")] ∧
        d.fill value? = .object [("text", .string "say \"hi\"")] ∧
        Json.ofText (bind [("p", "say \"hi\"")] [] "\x7b\"text\":\"\x7bp\x7d\"\x7d") =
          .ok (d.fill value?) := by
  intro value?
  have hname : IsName "p".toList := by simp [IsName, isNameChar]
  have hplain : IsPlain "say \"hi\"".toList := by simp [IsPlain]
  have hfits : Fits value? "\x7b\"text\":\"\x7bp\x7d\"\x7d".toList := by
    intro before name after v htext hname hv
    have hbrace : "\x7b\"text\":\"\x7bp\x7d\"\x7d".toList[before.length]? = some '\x7b' := by
      rw [htext]
      simp
    have hplaces : ∀ i < 14, "\x7b\"text\":\"\x7bp\x7d\"\x7d".toList[i]? = some '\x7b' →
        i = 0 ∨ i = 9 := by
      decide
    rcases hplaces _ (List.getElem?_eq_some_iff.mp hbrace).1 hbrace with hfirst | hsecond
    · -- After the first brace there is a quote, which no name has.
      obtain rfl := List.length_eq_zero_iff.mp hfirst
      obtain ⟨c, rest, rfl⟩ := List.exists_cons_of_ne_nil hname.1
      have hc : '"' = c := (List.cons.inj (List.cons.inj htext).2).1
      exact absurd (hname.2 c List.mem_cons_self) (hc ▸ by decide)
    · have hbefore : before = ['\x7b', '"', 't', 'e', 'x', 't', '"', ':', '"'] := by
        have htake := (congrArg (List.take before.length) htext).trans List.take_left
        rw [hsecond] at htake
        exact htake.symm
      have hvalue : "say \"hi\"".toList = v := by
        simp only [value?, valueIn, Table.findIn] at hv
        split at hv
        · exact Option.some.inj hv
        · cases hv
      exact ⟨⟨_, _, _, by rw [hbefore]; rfl, rfl⟩, hvalue ▸ hplain⟩
  obtain ⟨hvalid, hquoted, -⟩ :=
    ofText_bind "\x7b\"text\":\"\x7bp\x7d\"\x7d" "p" "say \"hi\""
  obtain ⟨d, hd, hfill⟩ := hvalid (.object [("text", .string "\x7bp\x7d")]) (by rfl)
  have hbound := hfill [("p", "say \"hi\"")] [] hfits
  have hread : Json.ofText (bind [("p", "say \"hi\"")] [] "\x7b\"text\":\"\x7bp\x7d\"\x7d") =
      .ok (.object [("text", .string "say \"hi\"")]) := rfl
  exact ⟨hfits, hname, hplain, (hquoted hname).mpr hplain, d, hd,
    Except.ok.inj (hbound.symm.trans hread), hbound⟩

/-- A backslash that comes back by accident: it forms an escape with the backslash after it. -/
example : Json.ofText (bind [("k", "\\")] [] "\"\x7bk\x7d\\/\"") = .ok (.string "\\/") := rfl

end MessageCard.Placeholder
