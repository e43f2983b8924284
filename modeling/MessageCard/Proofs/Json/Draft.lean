import MessageCard.Proofs.Json.Strings

/-!
# Documents with gaps

A draft is a document whose strings have gaps, each under a name. Given values for names it becomes
a document; a gap without a value shows its name in braces. Keys may have gaps too, so the members
of an object stay in the order of the text until the gaps are filled.

The reader never looks into the strings it has read. So its run over a text can be followed by a
draft in the making: whatever the values, the same character takes the same draft to the same next
one.
-/
namespace MessageCard.Json

/-- The values of names. -/
abbrev Valuation := List Char → Option (List Char)

/-- No name has a value. -/
def Valuation.none : Valuation := fun _ => .none

/-- A piece of a string with gaps: a character, or a gap by its name, with the text that is shown
between braces while the gap is open. -/
inductive Piece where
  | char (c : Char)
  | gap (name shown : List Char)

/-- A piece with its gap filled. -/
def Piece.fill (value? : Valuation) : Piece → List Char
  | .char c => [c]
  | .gap name shown => (value? name).getD ('\x7b' :: (shown ++ ['\x7d']))

/-- A string with its gaps filled. -/
def fillPieces (value? : Valuation) (pieces : List Piece) : List Char :=
  pieces.flatMap (Piece.fill value?)

@[simp] theorem fillPieces_nil (value? : Valuation) : fillPieces value? [] = [] := rfl

@[simp] theorem fillPieces_append (value? : Valuation) (a b : List Piece) :
    fillPieces value? (a ++ b) = fillPieces value? a ++ fillPieces value? b := by
  simp [fillPieces]

@[simp] theorem fillPieces_char (value? : Valuation) (cs : List Char) :
    fillPieces value? (cs.map .char) = cs := by
  induction cs with
  | nil => rfl
  | cons c rest ih => simpa [fillPieces, Piece.fill] using ih

@[simp] theorem fillPieces_gap (value? : Valuation) (name shown : List Char) :
    fillPieces value? [.gap name shown] =
      (value? name).getD ('\x7b' :: (shown ++ ['\x7d'])) := by
  simp [fillPieces, Piece.fill]

/-- A document whose strings have gaps. -/
inductive Draft where
  /-- A value without strings. -/
  | plain (value : Json)
  | string (pieces : List Piece)
  | array (items : List Draft)
  | object (members : List (List Piece × Draft))

mutual

/-- The document that a draft becomes. -/
def Draft.fill (value? : Valuation) : Draft → Json
  | .plain v => v
  | .string pieces => .string (.ofList (fillPieces value? pieces))
  | .array items => .array (Draft.fillItems value? items)
  | .object members => .ofMembers (Draft.fillMembers value? members)

def Draft.fillItems (value? : Valuation) : List Draft → List Json
  | [] => []
  | d :: rest => d.fill value? :: Draft.fillItems value? rest

def Draft.fillMembers (value? : Valuation) : List (List Piece × Draft) → List (String × Json)
  | [] => []
  | (key, d) :: rest =>
    (.ofList (fillPieces value? key), d.fill value?) :: Draft.fillMembers value? rest

end

theorem Draft.fillItems_eq_map (value? : Valuation) (items : List Draft) :
    Draft.fillItems value? items = items.map (Draft.fill value?) := by
  induction items with
  | nil => rfl
  | cons d rest ih => rw [Draft.fillItems, ih, List.map_cons]

theorem Draft.fillMembers_append (value? : Valuation) (a b : List (List Piece × Draft)) :
    Draft.fillMembers value? (a ++ b) =
      Draft.fillMembers value? a ++ Draft.fillMembers value? b := by
  induction a with
  | nil => rfl
  | cons m rest ih => rw [List.cons_append, Draft.fillMembers, ih, Draft.fillMembers,
      List.cons_append]

/-- The members of an object in the making, in the order of their keys. -/
def sortMembers (members : List (String × Json)) : List (String × Json) :=
  members.foldl (fun ms m => insertMember m.1 m.2 ms) []

theorem sortMembers_concat (members : List (String × Json)) (key : String) (value : Json) :
    sortMembers (members ++ [(key, value)]) = insertMember key value (sortMembers members) := by
  simp [sortMembers]

/-! ## Drafts in the making -/

/-- A container that is open. -/
inductive DraftContainer where
  /-- The elements so far, the last one first. -/
  | array (items : List Draft)
  /-- The members so far, the first one first, and the key of the next one. -/
  | object (members : List (List Piece × Draft)) (key : List Piece)

def DraftContainer.fill (value? : Valuation) : DraftContainer → Container
  | .array items => .array (items.map (Draft.fill value?))
  | .object members key =>
    .object (sortMembers (Draft.fillMembers value? members)) (.ofList (fillPieces value? key))

/-- The mode of a reader whose string so far is made of pieces. -/
def Mode.withPieces (value? : Valuation) (pieces : List Piece) : Mode → Mode
  | .text isKey _ escape => .text isKey (fillPieces value? pieces).reverse escape
  | m => m

/-- The state of a reader, with drafts in the place of documents. The characters that its mode holds
are not looked at; the pieces stand for them. -/
structure DraftState where
  containers : List DraftContainer
  mode : Mode
  pieces : List Piece
  result : Option Draft

namespace DraftState

def initial : DraftState := ⟨[], .value, [], none⟩

/-- The state of the reader that a draft in the making stands for. -/
def fill (value? : Valuation) (s : DraftState) : ReaderState :=
  ⟨s.containers.map (DraftContainer.fill value?), s.mode.withPieces value? s.pieces,
    s.result.map (Draft.fill value?)⟩

/-- The state after a value is complete. -/
def complete (s : DraftState) (d : Draft) : DraftState :=
  match s.containers with
  | [] => ⟨[], .afterValue, [], some d⟩
  | .array items :: rest => ⟨.array (d :: items) :: rest, .afterValue, [], none⟩
  | .object members key :: rest =>
    ⟨.object (members ++ [(key, d)]) key :: rest, .afterValue, [], none⟩

/-- The state after a container is closed. -/
def close (s : DraftState) : DraftState :=
  match s.containers with
  | [] => s
  | .array items :: rest => complete { s with containers := rest } (.array items.reverse)
  | .object members _ :: rest => complete { s with containers := rest } (.object members)

theorem fill_complete (s : DraftState) (d : Draft) (value? : Valuation) :
    (s.complete d).fill value? = (s.fill value?).complete (d.fill value?) := by
  obtain ⟨containers, mode, pieces, result⟩ := s
  rcases containers with _ | ⟨_ | ⟨members, key⟩, rest⟩
  · rfl
  · rfl
  · simp only [complete, fill, ReaderState.complete, List.map_cons, DraftContainer.fill,
      Draft.fillMembers_append, Draft.fillMembers, sortMembers_concat]
    rfl

theorem fill_close (s : DraftState) (value? : Valuation) :
    s.close.fill value? = (s.fill value?).close := by
  obtain ⟨containers, mode, pieces, result⟩ := s
  rcases containers with _ | ⟨items | ⟨members, key⟩, rest⟩
  · rfl
  · rw [close, fill_complete, Draft.fill, Draft.fillItems_eq_map, List.map_reverse]
    rfl
  · rw [close, fill_complete, Draft.fill]
    rfl

/-! ## One character

An operation of the reader is uniform at a draft in the making when the values make no difference to
where it leads. -/

/-- Whatever the values, an operation leads to the same draft in the making or the same error. -/
def Uniform (f : ReaderState → Except StepFault ReaderState) (s : DraftState) : Prop :=
  (∃ e, ∀ value?, f (s.fill value?) = .error e) ∨
    ∃ t : DraftState, ∀ value?, f (s.fill value?) = .ok (t.fill value?)

theorem uniform_error {f : ReaderState → Except StepFault ReaderState} {s : DraftState}
    (e : StepFault) (h : ∀ value?, f (s.fill value?) = .error e) : Uniform f s := .inl ⟨e, h⟩

theorem uniform_ok {f : ReaderState → Except StepFault ReaderState} {s : DraftState}
    (t : DraftState) (h : ∀ value?, f (s.fill value?) = .ok (t.fill value?)) : Uniform f s :=
  .inr ⟨t, h⟩

theorem Uniform.congr {f g : ReaderState → Except StepFault ReaderState} {s : DraftState}
    (h : Uniform g s) (hfg : ∀ value?, f (s.fill value?) = g (s.fill value?)) : Uniform f s := by
  simpa only [Uniform, hfg] using h

theorem uniform_ite {f g : ReaderState → Except StepFault ReaderState} {s : DraftState}
    (p : Prop) [Decidable p] (hf : p → Uniform f s) (hg : ¬p → Uniform g s) :
    Uniform (fun r => if p then f r else g r) s := by
  by_cases h : p
  · exact (hf h).congr fun _ => if_pos h
  · exact (hg h).congr fun _ => if_neg h

/-- A mode without characters of its own. -/
theorem uniform_mode (s : DraftState) (m : Mode) (hm : ∀ value?, m.withPieces value? [] = m) :
    Uniform (fun r => .ok { r with mode := m }) s :=
  uniform_ok { s with mode := m, pieces := [] } fun value? => by simp [fill, hm]

theorem uniform_opened (s : DraftState) (c : DraftContainer) (m : Mode)
    (hm : ∀ value?, m.withPieces value? [] = m) {container : Container}
    (hc : ∀ value?, c.fill value? = container) : Uniform (·.opened container m) s := by
  by_cases h : depthLimit ≤ s.containers.length
  · exact uniform_error _ fun value? => if_pos (by simpa [fill] using h)
  · refine uniform_ok { s with containers := c :: s.containers, mode := m, pieces := [] } ?_
    intro value?
    simp [ReaderState.opened, fill, h, hm, hc]

theorem uniform_startValue (s : DraftState) (c : Char) : Uniform (·.startValue c) s := by
  by_cases hn : c = 'n'
  · exact hn ▸ uniform_mode s _ fun _ => rfl
  by_cases ht : c = 't'
  · exact ht ▸ uniform_mode s _ fun _ => rfl
  by_cases hf : c = 'f'
  · exact hf ▸ uniform_mode s _ fun _ => rfl
  by_cases hq : c = '"'
  · exact hq ▸ uniform_mode s _ fun _ => rfl
  by_cases hm : c = '-'
  · exact hm ▸ uniform_mode s _ fun _ => rfl
  by_cases hb : c = '['
  · exact hb ▸ uniform_opened s (.array []) _ (fun _ => rfl) fun _ => rfl
  by_cases ho : c = '\x7b'
  · exact ho ▸ uniform_opened s (.object [] []) _ (fun _ => rfl) fun _ => rfl
  have number (r : ReaderState) {scan : NumberScan}
      (hscan : (NumberScan.start false).step c = .continue scan) :
      r.startValue c = .ok { r with mode := .number scan } := by
    unfold ReaderState.startValue
    split <;> first | contradiction | simp only [hscan]
  have other (r : ReaderState)
      (hscan : ∀ scan, (NumberScan.start false).step c ≠ .continue scan) :
      r.startValue c = .error ⟨.expectedValue, 1⟩ := by
    unfold ReaderState.startValue
    split <;> first | contradiction | skip
    split
    · next scan h => exact absurd h (hscan scan)
    · rfl
  cases hscan : (NumberScan.start false).step c with
  | «continue» scan =>
    exact (uniform_mode s (.number scan) fun _ => rfl).congr fun _ => number _ hscan
  | complete => exact uniform_error _ fun _ => other _ (by simp [hscan])
  | fault kind => exact uniform_error _ fun _ => other _ (by simp [hscan])

theorem uniform_startKey (s : DraftState) (c : Char) : Uniform (·.startKey c) s :=
  uniform_ite (c = '"') (fun _ => uniform_mode s _ fun _ => rfl)
    fun _ => uniform_error _ fun _ => rfl

theorem uniform_close (s : DraftState) : Uniform (fun r => .ok r.close) s :=
  uniform_ok s.close fun value? => by rw [fill_close]

theorem uniform_complete (s : DraftState) (d : Draft) (v : Json)
    (hv : ∀ value?, d.fill value? = v) : Uniform (fun r => .ok (r.complete v)) s :=
  uniform_ok (s.complete d) fun value? => by rw [fill_complete, hv]

theorem uniform_self (s : DraftState) : Uniform .ok s := uniform_ok s fun _ => rfl

theorem uniform_stepAfter (s : DraftState) (c : Char) : Uniform (·.stepAfter c) s := by
  refine uniform_ite _ (fun _ => uniform_self s) fun _ => ?_
  obtain ⟨containers, mode, pieces, result⟩ := s
  rcases containers with _ | ⟨_ | _, rest⟩
  · exact uniform_error ⟨.trailingCharacters, 1⟩ fun _ => rfl
  · refine Uniform.congr (g := fun r => if c = ',' then .ok { r with mode := .value }
      else if c = ']' then .ok r.close else .error ⟨.expectedCommaOrBracket, 1⟩) ?_ fun _ => rfl
    exact uniform_ite _ (fun _ => uniform_mode _ _ fun _ => rfl) fun _ =>
      uniform_ite _ (fun _ => uniform_close _) fun _ => uniform_error _ fun _ => rfl
  · refine Uniform.congr (g := fun r => if c = ',' then .ok { r with mode := .nextKey }
      else if c = '\x7d' then .ok r.close else .error ⟨.expectedCommaOrBrace, 1⟩) ?_ fun _ => rfl
    exact uniform_ite _ (fun _ => uniform_mode _ _ fun _ => rfl) fun _ =>
      uniform_ite _ (fun _ => uniform_close _) fun _ => uniform_error _ fun _ => rfl

/-- A character after a value that it completes. -/
theorem uniform_complete_stepAfter (s : DraftState) (v : Json) (c : Char) :
    Uniform (fun r => (r.complete v).stepAfter c) s := by
  have h (value? : Valuation) : (s.fill value?).complete v = (s.complete (.plain v)).fill value? :=
    (fill_complete s (.plain v) value?).symm
  simpa only [Uniform, h] using uniform_stepAfter (s.complete (.plain v)) c

/-- A string in the making with some more pieces. -/
def extend (s : DraftState) (isKey : Bool) (escape : EscapeState) (more : List Piece) :
    DraftState :=
  { s with mode := .text isKey [] escape, pieces := s.pieces ++ more }

/-- A string in the making, with its characters as the values make them. -/
theorem fill_text {s : DraftState} {isKey : Bool} {chars : List Char} {escape : EscapeState}
    (hs : s.mode = .text isKey chars escape) (value? : Valuation) :
    s.fill value? = { s.fill value? with
      mode := .text isKey (fillPieces value? s.pieces).reverse escape } := by
  simp [fill, hs, Mode.withPieces]

theorem fill_extend (s : DraftState) (isKey : Bool) (escape : EscapeState) (more : List Piece)
    (value? : Valuation) : (s.extend isKey escape more).fill value? = { s.fill value? with
      mode := .text isKey
        ((fillPieces value? more).reverse ++ (fillPieces value? s.pieces).reverse) escape } := by
  simp [extend, fill, Mode.withPieces]

/-- A character inside a string that does not end it. -/
theorem step_inside {s : DraftState} {isKey : Bool} {chars : List Char} {escape : EscapeState}
    (hs : s.mode = .text isKey chars escape) {c : Char} (hc : escape = .none → c ≠ '"') :
    (∃ f, ∀ value?, (s.fill value?).step c = .error f) ∨
    ∃ (added : List Char) (next : EscapeState), ∀ value?, (s.fill value?).step c =
      .ok ((s.extend isKey next (added.map .char)).fill value?) := by
  have step (value? : Valuation) : (s.fill value?).step c = (s.fill value?).stepText isKey
      (fillPieces value? s.pieces).reverse escape c := by
    simp only [ReaderState.step, fill, hs, Mode.withPieces]
  rcases stepText_cases hc with ⟨f, hf⟩ | ⟨added, next, -, h⟩
  · exact .inl ⟨f, fun value? => by rw [step, hf]⟩
  · exact .inr ⟨added, next, fun value? => by rw [step, h, fill_extend, fillPieces_char]⟩

/-- The end of a string. -/
theorem uniform_endText {s : DraftState} {isKey : Bool} {chars : List Char}
    (hs : s.mode = .text isKey chars .none) : Uniform (·.step '"') s := by
  obtain ⟨containers, mode, pieces, result⟩ := s
  subst hs
  cases isKey with
  | false =>
    refine uniform_ok (complete ⟨containers, .text false chars .none, pieces, result⟩
      (.string pieces)) fun value? => ?_
    rw [fill_complete, Draft.fill]
    simp [ReaderState.step, ReaderState.stepText, ReaderState.endText, fill, Mode.withPieces]
  | true =>
    rcases containers with _ | ⟨items | ⟨members, key⟩, rest⟩
    · exact (uniform_self _).congr fun _ => rfl
    · exact (uniform_self _).congr fun _ => rfl
    · refine uniform_ok ⟨.object members pieces :: rest, .colon, [], result⟩ fun value? => ?_
      simp [ReaderState.step, ReaderState.stepText, ReaderState.endText, fill, Mode.withPieces,
        DraftContainer.fill]

/-- A character after which a number goes on or is complete. -/
theorem uniform_number {s : DraftState} {scan : NumberScan} (hs : s.mode = .number scan)
    (c : Char) : Uniform (·.step c) s := by
  obtain ⟨containers, mode, pieces, result⟩ := s
  subst hs
  cases hscan : scan.step c with
  | «continue» next =>
    exact (uniform_mode _ (.number next) fun _ => rfl).congr fun value? => by
      simp only [ReaderState.step, fill, Mode.withPieces, hscan]
  | fault kind =>
    cases kind with
    | invalid =>
      exact uniform_error ⟨.invalidNumber, 1⟩ fun value? => by
        simp only [ReaderState.step, fill, Mode.withPieces, hscan]
    | outOfRange =>
      exact uniform_error ⟨.numberOutOfRange, 1⟩ fun value? => by
        simp only [ReaderState.step, fill, Mode.withPieces, hscan]
  | complete =>
    cases hfinish : scan.finish with
    | some n =>
      exact (uniform_complete_stepAfter _ (.number n) c).congr fun value? => by
        simp only [ReaderState.step, fill, Mode.withPieces, hscan, hfinish]
    | none =>
      exact uniform_error ⟨.numberOutOfRange, 0⟩ fun value? => by
        simp only [ReaderState.step, fill, Mode.withPieces, hscan, hfinish]

/-- Whatever the values, a character leads to the same draft in the making. -/
theorem uniform_step (s : DraftState) (c : Char) : Uniform (·.step c) s := by
  by_cases htext : ∃ isKey chars escape, s.mode = .text isKey chars escape
  · obtain ⟨isKey, chars, escape, hs⟩ := htext
    by_cases hend : escape = .none ∧ c = '"'
    · obtain ⟨rfl, rfl⟩ := hend
      exact uniform_endText hs
    · rcases step_inside (c := c) hs (fun he hc => hend ⟨he, hc⟩) with ⟨f, hf⟩ | ⟨added, next, h⟩
      · exact uniform_error f hf
      · exact uniform_ok _ h
  obtain ⟨containers, mode, pieces, result⟩ := s
  cases mode with
  | value =>
    obtain ⟨b, hb⟩ : ∃ b, ∀ value?, (fill value? ⟨containers, .value, pieces, result⟩).afterComma
        = b := by
      rcases containers with _ | ⟨(_ | _) | _, rest⟩ <;> exact ⟨_, fun _ => rfl⟩
    refine Uniform.congr (g := fun r => if blankChars.contains c then .ok r
      else if c = ']' ∧ b then .error ⟨.trailingComma, 1⟩ else r.startValue c) ?_
      fun value? => by simp only [ReaderState.step, ← hb value?]; rfl
    exact uniform_ite _ (fun _ => uniform_self _) fun _ =>
      uniform_ite _ (fun _ => uniform_error _ fun _ => rfl) fun _ => uniform_startValue _ c
  | firstItem =>
    refine Uniform.congr (g := fun r => if blankChars.contains c then .ok r
      else if c = ']' then .ok r.close else r.startValue c) ?_ fun _ => rfl
    exact uniform_ite _ (fun _ => uniform_self _) fun _ =>
      uniform_ite _ (fun _ => uniform_close _) fun _ => uniform_startValue _ c
  | firstKey =>
    refine Uniform.congr (g := fun r => if blankChars.contains c then .ok r
      else if c = '\x7d' then .ok r.close else r.startKey c) ?_ fun _ => rfl
    exact uniform_ite _ (fun _ => uniform_self _) fun _ =>
      uniform_ite _ (fun _ => uniform_close _) fun _ => uniform_startKey _ c
  | nextKey =>
    refine Uniform.congr (g := fun r => if blankChars.contains c then .ok r
      else if c = '\x7d' then .error ⟨.trailingComma, 1⟩ else r.startKey c) ?_ fun _ => rfl
    exact uniform_ite _ (fun _ => uniform_self _) fun _ =>
      uniform_ite _ (fun _ => uniform_error _ fun _ => rfl) fun _ => uniform_startKey _ c
  | colon =>
    refine Uniform.congr (g := fun r => if blankChars.contains c then .ok r
      else if c = ':' then .ok { r with mode := .value } else .error ⟨.expectedColon, 1⟩) ?_
      fun _ => rfl
    exact uniform_ite _ (fun _ => uniform_self _) fun _ =>
      uniform_ite _ (fun _ => uniform_mode _ _ fun _ => rfl) fun _ =>
        uniform_error _ fun _ => rfl
  | afterValue => exact (uniform_stepAfter _ c).congr fun _ => rfl
  | word rest v =>
    cases rest with
    | nil => exact (uniform_complete_stepAfter _ v c).congr fun _ => rfl
    | cons w rest =>
      refine Uniform.congr (g := fun r => if c = w then
        (if rest = [] then .ok (r.complete v) else .ok { r with mode := .word rest v })
        else .error ⟨.expectedWord, 1⟩) ?_
        fun _ => by simp only [ReaderState.step, fill, Mode.withPieces, apply_ite Except.ok]
      exact uniform_ite _ (fun _ => uniform_ite _
        (fun _ => uniform_complete _ (.plain v) v fun _ => rfl)
        fun _ => uniform_mode _ _ fun _ => rfl) fun _ => uniform_error _ fun _ => rfl
  | text isKey chars escape => exact absurd ⟨isKey, chars, escape, rfl⟩ htext
  | number scan => exact uniform_number rfl c

/-! ## Whole texts -/

/-- Whatever the values, a text leads to the same draft in the making, or is refused. -/
theorem uniform_after (s : DraftState) (text : List Char) :
    (∀ value?, (s.fill value?).after? text = none) ∨
      ∃ t : DraftState, ∀ value?, (s.fill value?).after? text = some (t.fill value?) := by
  induction text generalizing s with
  | nil => exact .inr ⟨s, fun _ => rfl⟩
  | cons c rest ih =>
    rcases uniform_step s c with ⟨e, he⟩ | ⟨t, ht⟩
    · exact .inl fun value? => ReaderState.after?_cons_of_error (he value?) rest
    · simpa only [ReaderState.after?_cons_of_ok (ht _)] using ih t

theorem uniform_finishAfter (s : DraftState) :
    (∃ e, ∀ value?, (s.fill value?).finishAfter = .error e) ∨
      ∃ d : Draft, ∀ value?, (s.fill value?).finishAfter = .ok (d.fill value?) := by
  obtain ⟨containers, mode, pieces, result⟩ := s
  rcases containers with _ | ⟨items | ⟨members, key⟩, rest⟩
  · cases result with
    | some d => exact .inr ⟨d, fun _ => rfl⟩
    | none => exact .inl ⟨.endInValue, fun _ => rfl⟩
  · exact .inl ⟨.endInArray, fun _ => rfl⟩
  · exact .inl ⟨.endInObject, fun _ => rfl⟩

/-- Where the text ends, a draft in the making is a draft or is unfinished, whatever the values. -/
theorem uniform_finish (s : DraftState) :
    (∃ e, ∀ value?, (s.fill value?).finish = .error e) ∨
      ∃ d : Draft, ∀ value?, (s.fill value?).finish = .ok (d.fill value?) := by
  obtain ⟨containers, mode, pieces, result⟩ := s
  cases mode with
  | value => exact .inl ⟨.endInValue, fun _ => rfl⟩
  | firstItem => exact .inl ⟨.endInArray, fun _ => rfl⟩
  | firstKey => exact .inl ⟨.endInObject, fun _ => rfl⟩
  | nextKey => exact .inl ⟨.endInValue, fun _ => rfl⟩
  | colon => exact .inl ⟨.endInObject, fun _ => rfl⟩
  | afterValue => exact uniform_finishAfter ⟨containers, .afterValue, pieces, result⟩
  | word rest v => exact .inl ⟨.endInValue, fun _ => rfl⟩
  | text isKey chars escape => exact .inl ⟨.endInString, fun _ => rfl⟩
  | number scan =>
    cases hend : scan.mayEnd with
    | false => exact .inl ⟨.endInValue, fun _ => by simp [ReaderState.finish, fill,
        Mode.withPieces, hend]⟩
    | true =>
      cases hfin : scan.finish with
      | none => exact .inl ⟨.numberOutOfRange, fun _ => by simp [ReaderState.finish, fill,
          Mode.withPieces, hend, hfin]⟩
      | some n =>
        have h := uniform_finishAfter
          (complete ⟨containers, .number scan, pieces, result⟩ (.plain (.number n)))
        simp only [fill_complete] at h
        simpa only [ReaderState.finish, fill, Mode.withPieces, hend, hfin, if_true, Draft.fill]
          using h

theorem extend_extend (s : DraftState) (isKey : Bool) (e f : EscapeState) (a b : List Piece) :
    (s.extend isKey e a).extend isKey f b = s.extend isKey f (a ++ b) := by
  simp [extend]

/-- Text without a quote does not leave the string that it begins in. -/
theorem after_inside {s : DraftState} {isKey : Bool} {chars : List Char} {escape : EscapeState}
    (hs : s.mode = .text isKey chars escape) {text : List Char} (htext : '"' ∉ text) :
    (∀ value?, (s.fill value?).after? text = none) ∨
    ∃ (added : List Char) (next : EscapeState), ∀ value?, (s.fill value?).after? text =
      some ((s.extend isKey next (added.map .char)).fill value?) := by
  induction text generalizing s chars escape with
  | nil =>
    refine .inr ⟨[], escape, fun value? => ?_⟩
    rw [ReaderState.after?_nil, fill_extend, fill_text hs]
    rfl
  | cons c rest ih =>
    have hc : c ≠ '"' := fun h => htext (h ▸ List.mem_cons_self)
    rcases step_inside hs (fun _ => hc) with ⟨f, hf⟩ | ⟨first, middle, hstep⟩
    · exact .inl fun value? => ReaderState.after?_cons_of_error (hf value?) rest
    simp only [ReaderState.after?_cons_of_ok (hstep _)]
    rcases ih (s := s.extend isKey middle (first.map .char)) rfl
      (fun h => htext (List.mem_cons_of_mem _ h)) with h | ⟨added, next, h⟩
    · exact .inl h
    · refine .inr ⟨first ++ added, next, fun value? => ?_⟩
      rw [h, extend_extend, List.map_append]

end DraftState
end MessageCard.Json
