import MessageCard.Placeholder

/-!
# The segments of a template

Filling holds characters back while a brace is open. Seen from its end it is simpler: the text falls
into characters that stay and placeholders, and every placeholder is replaced by itself. The
segments are found without regard to the values, put together they are the text, and filled one by
one they are the filled text.
-/
namespace MessageCard.Placeholder

/-- Whether a text can be a placeholder's name. -/
def IsName (name : List Char) : Prop := name ≠ [] ∧ ∀ c ∈ name, isNameChar c = true

/-- A character that stays, or a placeholder by its name. -/
inductive Segment where
  | char (c : Char)
  | hole (name : List Char)

namespace Segment

/-- A segment as it stands in the template. -/
def text : Segment → List Char
  | .char c => [c]
  | .hole name => '\x7b' :: (name ++ ['\x7d'])

/-- What takes the place of a segment. -/
def filled (value? : List Char → Option (List Char)) : Segment → List Char
  | .char c => [c]
  | .hole name => fill value? name

/-- Characters that stay. -/
def ofText (text : List Char) : List Segment := text.map .char

@[simp] theorem flatMap_text_ofText (cs : List Char) : (ofText cs).flatMap text = cs := by
  induction cs with
  | nil => rfl
  | cons c rest ih => simpa [ofText, text] using ih

@[simp] theorem flatMap_filled_ofText (value? : List Char → Option (List Char))
    (cs : List Char) : (ofText cs).flatMap (filled value?) = cs := by
  induction cs with
  | nil => rfl
  | cons c rest ih => simpa [ofText, filled] using ih

theorem not_hole_mem_ofText (name cs : List Char) : Segment.hole name ∉ ofText cs := by
  simp [ofText]

end Segment

/-- The segments of a text, where a brace may be open with some characters held back after it. -/
def segmentsFrom : Option (List Char) → List Char → List Segment
  | none, [] => []
  | some held, [] => Segment.ofText ('\x7b' :: held.reverse)
  | none, c :: rest =>
    if c = '\x7b' then segmentsFrom (some []) rest else .char c :: segmentsFrom none rest
  | some held, c :: rest =>
    if c = '\x7d' then
      (if held = [] then Segment.ofText ['\x7b', '\x7d'] else [.hole held.reverse]) ++
        segmentsFrom none rest
    else if c = '\x7b' then
      Segment.ofText ('\x7b' :: held.reverse) ++ segmentsFrom (some []) rest
    else if isNameChar c then segmentsFrom (some (c :: held)) rest
    else Segment.ofText ('\x7b' :: held.reverse) ++ .char c :: segmentsFrom none rest

/-- The segments of a template. -/
def segments (text : List Char) : List Segment := segmentsFrom none text

/-- The characters that an open brace holds back, with the brace. -/
def heldText : Option (List Char) → List Char
  | none => []
  | some held => '\x7b' :: held.reverse

theorem text_segmentsFrom (held : Option (List Char)) (text : List Char) :
    (segmentsFrom held text).flatMap Segment.text = heldText held ++ text := by
  induction held, text using segmentsFrom.induct with
  | case1 => rfl
  | case2 held => simp [segmentsFrom, heldText]
  | case3 rest ih =>
    rw [segmentsFrom, if_pos rfl, ih]
    rfl
  | case4 c rest hc ih =>
    rw [segmentsFrom, if_neg hc, List.flatMap_cons, ih]
    rfl
  | case5 held rest ih =>
    rw [segmentsFrom, if_pos rfl, List.flatMap_append, ih]
    by_cases hheld : held = []
    · simp [hheld, heldText]
    · simp [hheld, heldText, Segment.text]
  | case6 held rest hc ih =>
    rw [segmentsFrom, if_neg hc, if_pos rfl, List.flatMap_append, ih]
    simp [heldText]
  | case7 held c rest hclose hopen hname ih =>
    rw [segmentsFrom, if_neg hclose, if_neg hopen, if_pos hname, ih]
    simp [heldText]
  | case8 held c rest hclose hopen hname ih =>
    rw [segmentsFrom, if_neg hclose, if_neg hopen, if_neg hname, List.flatMap_append,
      List.flatMap_cons, ih]
    simp [heldText, Segment.text]

/-- Put together, the segments are the template. -/
theorem text_segments (text : List Char) : (segments text).flatMap Segment.text = text :=
  text_segmentsFrom none text

theorem filled_segmentsFrom (value? : List Char → Option (List Char))
    (held : Option (List Char)) (text : List Char) :
    (segmentsFrom held text).flatMap (Segment.filled value?) = fillFrom value? held text := by
  induction held, text using segmentsFrom.induct with
  | case1 => rfl
  | case2 held => simp [segmentsFrom, fillFrom]
  | case3 rest ih => rw [segmentsFrom, if_pos rfl, ih, fillFrom, if_pos rfl]
  | case4 c rest hc ih =>
    rw [segmentsFrom, if_neg hc, List.flatMap_cons, ih, fillFrom, if_neg hc]
    rfl
  | case5 held rest ih =>
    rw [segmentsFrom, if_pos rfl, List.flatMap_append, ih, fillFrom, if_pos rfl]
    by_cases hheld : held = []
    · simp [hheld, fill]
    · simp [hheld, Segment.filled]
  | case6 held rest hc ih =>
    rw [segmentsFrom, if_neg hc, if_pos rfl, List.flatMap_append, ih, fillFrom, if_neg hc,
      if_pos rfl]
    simp
  | case7 held c rest hclose hopen hname ih =>
    rw [segmentsFrom, if_neg hclose, if_neg hopen, if_pos hname, ih, fillFrom, if_neg hclose,
      if_neg hopen, if_pos hname]
  | case8 held c rest hclose hopen hname ih =>
    rw [segmentsFrom, if_neg hclose, if_neg hopen, if_neg hname, List.flatMap_append,
      List.flatMap_cons, ih, fillFrom, if_neg hclose, if_neg hopen, if_neg hname]
    simp [Segment.filled]

/-- Filled one by one, the segments are the filled template. -/
theorem filled_segments (value? : List Char → Option (List Char)) (text : List Char) :
    (segments text).flatMap (Segment.filled value?) = fillAll value? text :=
  filled_segmentsFrom value? none text

theorem fillFrom_hole (value? : List Char → Option (List Char)) {name : List Char}
    (hname : ∀ c ∈ name, isNameChar c = true) (held rest : List Char) :
    fillFrom value? (some held) (name ++ '\x7d' :: rest) =
      fill value? (held.reverse ++ name) ++ fillFrom value? none rest := by
  induction name generalizing held with
  | nil => simp [fillFrom]
  | cons c tail ih =>
    have hc : isNameChar c = true := hname c List.mem_cons_self
    have hclose : c ≠ '\x7d' := by rintro rfl; exact absurd hc (by decide)
    have hopen : c ≠ '\x7b' := by rintro rfl; exact absurd hc (by decide)
    rw [List.cons_append, fillFrom, if_neg hclose, if_neg hopen, if_pos hc,
      ih fun d hd => hname d (List.mem_cons_of_mem _ hd)]
    simp

/-- A placeholder is filled by itself, with its value or as it stands. -/
theorem fillAll_hole (value? : List Char → Option (List Char)) {name : List Char}
    (hname : IsName name) (rest : List Char) :
    fillAll value? ('\x7b' :: (name ++ '\x7d' :: rest)) =
      fill value? name ++ fillAll value? rest :=
  fillFrom_hole value? hname.2 [] rest

/-- The placeholders among the segments have names. -/
theorem isName_of_hole_mem_segmentsFrom {name : List Char} (held : Option (List Char))
    (text : List Char) (hheld : ∀ c ∈ held.getD [], isNameChar c = true)
    (h : Segment.hole name ∈ segmentsFrom held text) : IsName name := by
  induction held, text using segmentsFrom.induct with
  | case1 => simp [segmentsFrom] at h
  | case2 held => exact absurd h (Segment.not_hole_mem_ofText _ _)
  | case3 rest ih => exact ih (by simp) (by simpa [segmentsFrom] using h)
  | case4 c rest hc ih => exact ih (by simp) (by simpa [segmentsFrom, hc] using h)
  | case5 held rest ih =>
    rw [segmentsFrom, if_pos rfl, List.mem_append] at h
    rcases h with h | h
    · split at h
      · exact absurd h (Segment.not_hole_mem_ofText _ _)
      · next hne =>
        obtain rfl : name = held.reverse := by simpa using h
        exact ⟨by simpa using hne, fun c hc => hheld c (by simpa using hc)⟩
    · exact ih (by simp) h
  | case6 held rest hc ih =>
    rw [segmentsFrom, if_neg hc, if_pos rfl, List.mem_append] at h
    exact ih (by simp) (h.resolve_left (Segment.not_hole_mem_ofText _ _))
  | case7 held c rest hclose hopen hname ih =>
    rw [segmentsFrom, if_neg hclose, if_neg hopen, if_pos hname] at h
    refine ih (fun d hd => ?_) h
    rcases List.mem_cons.mp hd with rfl | hd
    · exact hname
    · exact hheld d hd
  | case8 held c rest hclose hopen hname ih =>
    rw [segmentsFrom, if_neg hclose, if_neg hopen, if_neg hname, List.mem_append] at h
    exact ih (by simp)
      (by simpa using h.resolve_left (Segment.not_hole_mem_ofText _ _))

theorem isName_of_hole_mem {name text : List Char} (h : Segment.hole name ∈ segments text) :
    IsName name :=
  isName_of_hole_mem_segmentsFrom none text (by simp) h

end MessageCard.Placeholder
