import MessageCard.Proofs.Svg.Entities
import MessageCard.Svg

/-!
# Reading markup

A document is read character by character. What was opened is kept on a stack, innermost first, and
only the innermost element can be closed, by its own name. The reader refuses whatever it does not
know: a name with other characters, an attribute given twice, a value or a text that is not escaped,
a text between elements, and everything after the outermost element.

Markup can be read piece by piece: a piece that adds elements to one element adds them to any.
-/
namespace MessageCard.Svg

/-- An element as it is read, with its attributes, its text and the elements inside. -/
structure Xml where
  tag : String
  attributes : List (String × String)
  text : String
  children : List Xml

namespace Xml

/-- Whether an element holds a text. Such an element has no elements inside. -/
def holdsText (x : Xml) : Bool := x.tag = "text" || x.tag = "style"

/-- The element with more elements inside. -/
def add (x : Xml) (more : List Xml) : Xml := { x with children := x.children ++ more }

/-- The element with more attributes. -/
def give (x : Xml) (more : List (String × String)) : Xml :=
  { x with attributes := x.attributes ++ more }

@[simp] theorem holdsText_add (x : Xml) (more : List Xml) : (x.add more).holdsText = x.holdsText :=
  rfl

@[simp] theorem add_nil (x : Xml) : x.add [] = x := by
  cases x
  simp [add]

@[simp] theorem add_add (x : Xml) (more others : List Xml) :
    (x.add more).add others = x.add (more ++ others) := by simp [add]

@[simp] theorem attributes_give (x : Xml) (more : List (String × String)) :
    (x.give more).attributes = x.attributes ++ more := rfl

@[simp] theorem give_nil (x : Xml) : x.give [] = x := by
  cases x
  simp [give]

@[simp] theorem give_give (x : Xml) (more others : List (String × String)) :
    (x.give more).give others = x.give (more ++ others) := by simp [give]

end Xml

/-- The characters that may stand between tags where no text is. -/
def isWhite (c : Char) : Bool := c = ' ' || c = '\n' || c = '\r' || c = '\t'

/-- The characters of names. -/
def inName (c : Char) : Bool := c.isAlphanum || c = '-'

/-- A name: a letter, and more characters of names. -/
def isName : List Char → Bool
  | [] => false
  | c :: rest => c.isAlpha && rest.all inName

/-- Where in the markup a reader is. -/
inductive Place where
  /-- Between two tags, after some text. -/
  | between (written : List Char)
  /-- In the name of a tag. -/
  | opening (name : List Char)
  /-- In the name of an attribute. -/
  | attribute (x : Xml) (name : List Char)
  /-- Before the quote that starts a value. -/
  | quote (x : Xml) (name : String)
  /-- In a value. -/
  | value (x : Xml) (name : String) (written : List Char)
  /-- After a value. -/
  | after (x : Xml)
  /-- In the end of an element without content. -/
  | slash (x : Xml)
  /-- In the name of a closing tag. -/
  | closing (name : List Char)

/-- What was read so far. -/
structure Reading where
  /-- The innermost element that is open, with what it has up to here. -/
  inner : Xml
  /-- The elements around it, innermost first. -/
  outer : List Xml
  place : Place

namespace Reading

/-- The reading at another place of the same element. -/
def moveTo (r : Reading) (p : Place) : Reading := { r with place := p }

/-- A text, where one may be. Between elements only white space may be, which stands for nothing. -/
def write? (r : Reading) (written : List Char) : Option Reading :=
  if r.inner.holdsText then
    (decode? written).map fun s => { r with inner.text := r.inner.text ++ .ofList s }
  else if written.all isWhite then some r
  else none

/-- An element is complete. -/
def add? (r : Reading) (x : Xml) : Option Reading :=
  if r.inner.holdsText then none else some ⟨r.inner.add [x], r.outer, .between []⟩

/-- An element begins. -/
def open? (r : Reading) (x : Xml) : Option Reading :=
  if r.inner.holdsText then none else some ⟨x, r.inner :: r.outer, .between []⟩

/-- The innermost element ends. -/
def close? (r : Reading) (name : String) : Option Reading :=
  match r.outer with
  | [] => none
  | parent :: outer =>
    if r.inner.tag = name then some ⟨parent.add [r.inner], outer, .between []⟩ else none

/-- What comes after the name or an attribute of an opening tag. -/
def tagEnd? (r : Reading) (x : Xml) (c : Char) : Option Reading :=
  if c = ' ' then some (r.moveTo (.attribute x []))
  else if c = '/' then some (r.moveTo (.slash x))
  else if c = '>' then r.open? x
  else none

/-- One more character. -/
def step? (r : Reading) (c : Char) : Option Reading :=
  match r.place with
  | .between written =>
    if c = '<' then (r.write? written).map (·.moveTo (.opening []))
    else some (r.moveTo (.between (written ++ [c])))
  | .opening name =>
    if inName c then some (r.moveTo (.opening (name ++ [c])))
    else if name = [] ∧ c = '/' then some (r.moveTo (.closing []))
    else if isName name then r.tagEnd? ⟨.ofList name, [], "", []⟩ c
    else none
  | .attribute x name =>
    if inName c then some (r.moveTo (.attribute x (name ++ [c])))
    else if c = '=' ∧ isName name ∧ .ofList name ∉ x.attributes.map (·.1) then
      some (r.moveTo (.quote x (.ofList name)))
    else none
  | .quote x name => if c = '"' then some (r.moveTo (.value x name [])) else none
  | .value x name written =>
    if c = '"' then
      (decode? written).map fun value => r.moveTo (.after (x.give [(name, .ofList value)]))
    else some (r.moveTo (.value x name (written ++ [c])))
  | .after x => r.tagEnd? x c
  | .slash x => if c = '>' then r.add? x else none
  | .closing name =>
    if inName c then some (r.moveTo (.closing (name ++ [c])))
    else if c = '>' then r.close? (.ofList name)
    else none

/-- More characters. -/
def run? (r : Reading) (written : List Char) : Option Reading := written.foldlM step? r

end Reading

/-- The line that a document may begin with. -/
def declarationLine : List Char := "<?xml version=\"1.0\" encoding=\"UTF-8\"?>".toList

/-- The document without that line. -/
def withoutDeclaration (document : List Char) : List Char :=
  if declarationLine.isPrefixOf document then document.drop declarationLine.length else document

/-- What is around the outermost element. -/
def outside : Xml := ⟨"", [], "", []⟩

/-- The outermost element of a document. All elements must be closed at the end, and there must be
exactly one outermost one. Any character may stand in a text or in a value: that XML leaves out most
control characters is not looked at. -/
def read? (document : List Char) : Option Xml :=
  match Reading.run? ⟨outside, [], .between []⟩ (withoutDeclaration document) with
  | some ⟨⟨_, _, _, [root]⟩, [], .between written⟩ =>
    if written.all isWhite then some root else none
  | _ => none

/-! ## Running -/

namespace Reading

@[simp] theorem run?_nil (r : Reading) : r.run? [] = some r := rfl

theorem run?_cons (r : Reading) (c : Char) (rest : List Char) :
    r.run? (c :: rest) = (r.step? c).bind (·.run? rest) := rfl

theorem run?_append (r : Reading) (s t : List Char) :
    r.run? (s ++ t) = (r.run? s).bind (·.run? t) := List.foldlM_append

/-- What is read up to a reading may be replaced by that reading. -/
theorem run?_append_of_eq {r r' : Reading} {s : List Char} (h : r.run? s = some r')
    (t : List Char) : r.run? (s ++ t) = r'.run? t := by
  rw [run?_append, h, Option.bind_some]

theorem run?_cons_of_eq {r r' : Reading} {c : Char} (h : r.step? c = some r') (rest : List Char) :
    r.run? (c :: rest) = r'.run? rest := by
  rw [run?_cons, h, Option.bind_some]

variable (r : Reading)

/-- A place that takes in each of the characters takes in all of them. -/
theorem run?_collect (place : List Char → Place) {more : List Char}
    (hstep : ∀ c ∈ more, ∀ s, (r.moveTo (place s)).step? c = some (r.moveTo (place (s ++ [c]))))
    (s : List Char) : (r.moveTo (place s)).run? more = some (r.moveTo (place (s ++ more))) := by
  induction more generalizing s with
  | nil => simp
  | cons c rest ih =>
    obtain ⟨hc, hrest⟩ := List.forall_mem_cons.mp hstep
    rw [run?_cons_of_eq (hc s), ih hrest, List.append_assoc, List.singleton_append]

theorem run?_between {more : List Char} (h : '<' ∉ more) (written : List Char) :
    (r.moveTo (.between written)).run? more = some (r.moveTo (.between (written ++ more))) :=
  r.run?_collect .between (fun c hc s => by
    have hne : c ≠ '<' := fun heq => h (heq ▸ hc)
    simp [step?, moveTo, hne]) written

theorem run?_opening {more : List Char} (h : ∀ c ∈ more, inName c) (name : List Char) :
    (r.moveTo (.opening name)).run? more = some (r.moveTo (.opening (name ++ more))) :=
  r.run?_collect .opening (fun c hc s => by simp [step?, moveTo, h c hc]) name

theorem run?_attribute (x : Xml) {more : List Char} (h : ∀ c ∈ more, inName c)
    (name : List Char) :
    (r.moveTo (.attribute x name)).run? more = some (r.moveTo (.attribute x (name ++ more))) :=
  r.run?_collect (.attribute x) (fun c hc s => by simp [step?, moveTo, h c hc]) name

theorem run?_value (x : Xml) (name : String) {more : List Char} (h : '"' ∉ more)
    (written : List Char) : (r.moveTo (.value x name written)).run? more =
      some (r.moveTo (.value x name (written ++ more))) :=
  r.run?_collect (.value x name) (fun c hc s => by
    have hne : c ≠ '"' := fun heq => h (heq ▸ hc)
    simp [step?, moveTo, hne]) written

theorem run?_closing {more : List Char} (h : ∀ c ∈ more, inName c) (name : List Char) :
    (r.moveTo (.closing name)).run? more = some (r.moveTo (.closing (name ++ more))) :=
  r.run?_collect .closing (fun c hc s => by simp [step?, moveTo, h c hc]) name

end Reading

theorem inName_of_isName {s : List Char} (h : isName s) : ∀ c ∈ s, inName c := by
  cases s with
  | nil => cases h
  | cons c rest =>
    simp only [isName, Bool.and_eq_true, List.all_eq_true] at h
    refine List.forall_mem_cons.mpr ⟨?_, h.2⟩
    simp [inName, Char.isAlphanum, h.1]

theorem ne_nil_of_isName {s : List Char} (h : isName s) : s ≠ [] := by
  rintro rfl
  cases h

/-! ## Attributes -/

namespace Attribute

/-- An attribute as it stands in a tag. -/
def markup (a : Attribute) : List Char :=
  ' ' :: (a.name.toList ++ ('=' :: '"' :: (a.written ++ ['"'])))

/-- An attribute whose value is escaped. -/
def IsEscaped (a : Attribute) : Prop := ∃ value, a.written = escape value

/-- A name with an escaped value. -/
structure IsSound (a : Attribute) : Prop where
  isName : isName a.name.toList
  isEscaped : a.IsEscaped

/-- An attribute as it is read. -/
def read (a : Attribute) : String × String := (a.name, .ofList ((decode? a.written).getD []))

theorem read_of_eq_escape {name : String} {written value : List Char}
    (h : written = escape value) : read ⟨name, written⟩ = (name, .ofList value) := by
  simp [read, h]

end Attribute

/-- Sound attributes with different names. -/
structure AreSound (attributes : List Attribute) : Prop where
  each : ∀ a ∈ attributes, a.IsSound
  nodup : (attributes.map (·.name)).Nodup

theorem areSound_nil : AreSound [] := ⟨by simp, by simp⟩

namespace Reading

variable (r : Reading)

/-- An attribute is read as it is. -/
theorem run?_after_attribute {a : Attribute} (ha : a.IsSound) {x : Xml}
    (hnew : a.name ∉ x.attributes.map (·.1)) :
    (r.moveTo (.after x)).run? a.markup = some (r.moveTo (.after (x.give [a.read]))) := by
  obtain ⟨name, written⟩ := a
  obtain ⟨hname, value, rfl⟩ := ha
  have hspace : (r.moveTo (.after x)).step? ' ' = some (r.moveTo (.attribute x [])) := by
    simp [step?, moveTo, tagEnd?]
  have hequals : (r.moveTo (.attribute x name.toList)).step? '=' =
      some (r.moveTo (.quote x name)) := by
    have hother : inName '=' = false := by decide
    simp_all [step?, moveTo]
  have hquote : (r.moveTo (.quote x name)).step? '"' = some (r.moveTo (.value x name [])) := by
    simp [step?, moveTo]
  have hvalue : '"' ∉ escape value := not_mem_escape (by decide) (by decide) value
  have hend : (r.moveTo (.value x name (escape value))).step? '"' =
      some (r.moveTo (.after (x.give [Attribute.read ⟨name, escape value⟩]))) := by
    simp [step?, moveTo, Attribute.read]
  rw [Attribute.markup, run?_cons_of_eq hspace,
    run?_append_of_eq (r.run?_attribute x (inName_of_isName hname) []), List.nil_append,
    run?_cons_of_eq hequals, run?_cons_of_eq hquote,
    run?_append_of_eq (r.run?_value x name hvalue []), List.nil_append, run?_cons_of_eq hend,
    run?_nil]

/-- Attributes with different names are read one after the other. -/
theorem run?_after_attributes {attributes : List Attribute}
    (h : ∀ a ∈ attributes, a.IsSound) (x : Xml)
    (hnodup : (x.attributes.map (·.1) ++ attributes.map (·.name)).Nodup) :
    (r.moveTo (.after x)).run? (attributes.flatMap (·.markup)) =
      some (r.moveTo (.after (x.give (attributes.map (·.read))))) := by
  induction attributes generalizing x with
  | nil => simp
  | cons a rest ih =>
    obtain ⟨ha, hrest⟩ := List.forall_mem_cons.mp h
    rw [List.map_cons, List.append_cons] at hnodup
    have hnew : a.name ∉ x.attributes.map (·.1) := by
      have hfirst := (List.nodup_append.mp hnodup).1
      intro hmem
      exact (List.nodup_append.mp hfirst).2.2 _ hmem _ (List.mem_singleton_self _) rfl
    rw [List.flatMap_cons, run?_append_of_eq (r.run?_after_attribute ha hnew), ih hrest]
    · simp
    · simpa [Attribute.read] using hnodup

/-! ## Tags -/

/-- After the name of a tag the reader is where it is after an attribute. -/
theorem run?_opening_eq {tag : String} (htag : isName tag.toList) {c : Char}
    (hc : inName c = false) (rest : List Char) :
    (r.moveTo (.opening tag.toList)).run? (c :: rest) =
      (r.moveTo (.after ⟨tag, [], "", []⟩)).run? (c :: rest) := by
  have hne := ne_nil_of_isName htag
  have hstep : (r.moveTo (.opening tag.toList)).step? c =
      (r.moveTo (.opening tag.toList)).tagEnd? ⟨tag, [], "", []⟩ c := by
    simp [step?, moveTo, hc, hne, htag]
  rw [run?_cons, run?_cons, hstep]
  rfl

/-- A tag is read up to its end, where no text is. -/
theorem run?_writeTag {tag : String} {attributes : List Attribute} (htag : isName tag.toList)
    (h : AreSound attributes) {parent : Xml} (hparent : parent.holdsText = false)
    {outer : List Xml} {layout : List Char} (hlayout : layout.all isWhite) {c : Char}
    (hc : inName c = false) (rest : List Char) :
    run? ⟨parent, outer, .between layout⟩ (writeTag tag attributes ++ c :: rest) =
      run? ⟨parent, outer, .after ⟨tag, attributes.map (·.read), "", []⟩⟩ (c :: rest) := by
  let r : Reading := ⟨parent, outer, .between layout⟩
  have hbracket : r.step? '<' = some (r.moveTo (.opening [])) := by
    simp [r, step?, write?, moveTo, hparent, hlayout]
  have hname := r.run?_opening (inName_of_isName htag) []
  have hattributes := r.run?_after_attributes h.each ⟨tag, [], "", []⟩ (by simpa using h.nodup)
  -- The name is over with the character after it, whether that starts an attribute or not.
  obtain ⟨d, more, hd, heq⟩ : ∃ d more, inName d = false ∧
      attributes.flatMap (·.markup) ++ c :: rest = d :: more := by
    cases attributes with
    | nil => exact ⟨c, rest, hc, rfl⟩
    | cons a others => exact ⟨' ', _, by decide, rfl⟩
  have htagMarkup : writeTag tag attributes =
      '<' :: (tag.toList ++ attributes.flatMap (·.markup)) := rfl
  rw [htagMarkup, List.cons_append, run?_cons_of_eq hbracket, List.append_assoc,
    run?_append_of_eq hname, List.nil_append, heq, run?_opening_eq r htag hd, ← heq,
    run?_append_of_eq hattributes]
  rfl

/-- An opening tag puts an element inside the innermost one. -/
theorem run?_openingTag {tag : String} {attributes : List Attribute} (htag : isName tag.toList)
    (h : AreSound attributes) {parent : Xml} (hparent : parent.holdsText = false)
    {outer : List Xml} {layout : List Char} (hlayout : layout.all isWhite) (rest : List Char) :
    run? ⟨parent, outer, .between layout⟩ (writeTag tag attributes ++ '>' :: rest) =
      run? ⟨⟨tag, attributes.map (·.read), "", []⟩, parent :: outer, .between []⟩ rest := by
  rw [run?_writeTag htag h hparent hlayout (by decide), run?_cons]
  simp [step?, tagEnd?, open?, hparent]

/-- A closing tag ends the innermost element, with the text before it. -/
theorem run?_closingTag {r r' : Reading} {written : List Char} {parent : Xml} {outer : List Xml}
    (hwrite : r.write? written = some r') (hplace : r.place = .between written)
    (houter : r'.outer = parent :: outer) (htag : isName r'.inner.tag.toList) :
    r.run? (closingTag r'.inner.tag) = some ⟨parent.add [r'.inner], outer, .between []⟩ := by
  have hbracket : r.step? '<' = some (r'.moveTo (.opening [])) := by
    simp [step?, hplace, hwrite]
  have hslash : (r'.moveTo (.opening [])).step? '/' = some (r'.moveTo (.closing [])) := by
    have hother : inName '/' = false := by decide
    simp [step?, moveTo, hother]
  have hname := r'.run?_closing (inName_of_isName htag) []
  have hend : (r'.moveTo (.closing r'.inner.tag.toList)).step? '>' =
      some ⟨parent.add [r'.inner], outer, .between []⟩ := by
    have hother : inName '>' = false := by decide
    simp [step?, moveTo, hother, close?, houter]
  rw [closingTag, run?_cons_of_eq hbracket, run?_cons_of_eq hslash, run?_append_of_eq hname,
    List.nil_append, run?_cons_of_eq hend, run?_nil]

end Reading

/-! ## Pieces of markup -/

/-- Markup that adds elements to whatever element it is in, if that has no text. Blanks before it
and after it are left out. -/
def IsMarkup (written : List Char) (xs : List Xml) : Prop :=
  ∀ (parent : Xml) (outer : List Xml) (before : List Char), parent.holdsText = false →
    before.all isWhite → ∃ after, after.all isWhite ∧
      Reading.run? ⟨parent, outer, .between before⟩ written =
        some ⟨parent.add xs, outer, .between after⟩

theorem isMarkup_nil : IsMarkup [] [] :=
  fun parent outer before _ hbefore => ⟨before, hbefore, by simp⟩

theorem IsMarkup.append {s t : List Char} {xs ys : List Xml} (hs : IsMarkup s xs)
    (ht : IsMarkup t ys) : IsMarkup (s ++ t) (xs ++ ys) := by
  intro parent outer before hparent hbefore
  obtain ⟨between, hbetween, hrun⟩ := hs parent outer before hparent hbefore
  obtain ⟨after, hafter, hrun'⟩ := ht (parent.add xs) outer between hparent hbetween
  exact ⟨after, hafter, by rw [Reading.run?_append_of_eq hrun, hrun', Xml.add_add]⟩

theorem isMarkup_of_white {s : List Char} (h : s.all isWhite) : IsMarkup s [] := by
  intro parent outer before _ hbefore
  have hbracket : '<' ∉ s := fun hmem => absurd (List.all_eq_true.mp h _ hmem) (by decide)
  refine ⟨before ++ s, by simp [hbefore, h], ?_⟩
  rw [Xml.add_nil]
  exact Reading.run?_between ⟨parent, outer, .between before⟩ hbracket before

/-- An element without content. -/
theorem isMarkup_writeLeaf {tag : String} {attributes : List Attribute} (htag : isName tag.toList)
    (h : AreSound attributes) :
    IsMarkup (writeLeaf tag attributes) [⟨tag, attributes.map (·.read), "", []⟩] := by
  intro parent outer before hparent hbefore
  refine ⟨[], rfl, ?_⟩
  rw [writeLeaf, Reading.run?_writeTag htag h hparent hbefore (by decide)]
  simp [Reading.run?_cons, Reading.step?, Reading.tagEnd?, Reading.moveTo, Reading.add?, hparent]

/-- An element with a text. -/
theorem isMarkup_text {tag : String} {attributes : List Attribute} {text : List Char}
    (htag : isName tag.toList) (hholds : tag = "text" ∨ tag = "style") (h : AreSound attributes) :
    IsMarkup (writeTag tag attributes ++ '>' :: (escape text ++ closingTag tag))
      [⟨tag, attributes.map (·.read), .ofList text, []⟩] := by
  intro parent outer before hparent hbefore
  refine ⟨[], rfl, ?_⟩
  let x : Xml := ⟨tag, attributes.map (·.read), "", []⟩
  have hbracket : '<' ∉ escape text := not_mem_escape (by decide) (by decide) text
  have htext : Reading.run? ⟨x, parent :: outer, .between []⟩ (escape text) =
      some ⟨x, parent :: outer, .between (escape text)⟩ :=
    Reading.run?_between ⟨x, parent :: outer, .between []⟩ hbracket []
  have hwrite : Reading.write? ⟨x, parent :: outer, .between (escape text)⟩ (escape text) =
      some ⟨{ x with text := .ofList text }, parent :: outer, .between (escape text)⟩ := by
    have hx : x.holdsText := by simpa [x, Xml.holdsText] using hholds
    simp [Reading.write?, hx, x]
  rw [Reading.run?_openingTag htag h hparent hbefore, Reading.run?_append_of_eq htext]
  have hclose := Reading.run?_closingTag hwrite rfl rfl htag
  exact hclose

/-- An element with elements inside. -/
theorem IsMarkup.group {tag : String} {attributes : List Attribute} {written : List Char}
    {xs : List Xml} (hinside : IsMarkup written xs) (htag : isName tag.toList)
    (hholds : tag ≠ "text" ∧ tag ≠ "style") (h : AreSound attributes) :
    IsMarkup (writeTag tag attributes ++ '>' :: (written ++ closingTag tag))
      [⟨tag, attributes.map (·.read), "", xs⟩] := by
  intro parent outer before hparent hbefore
  refine ⟨[], rfl, ?_⟩
  let x : Xml := ⟨tag, attributes.map (·.read), "", []⟩
  have hx : x.holdsText = false := by simpa [x, Xml.holdsText] using hholds
  obtain ⟨after, hafter, hrun⟩ := hinside x (parent :: outer) [] hx rfl
  have hwrite : Reading.write? ⟨x.add xs, parent :: outer, .between after⟩ after =
      some ⟨x.add xs, parent :: outer, .between after⟩ := by
    simp [Reading.write?, hx, hafter]
  rw [Reading.run?_openingTag htag h hparent hbefore, Reading.run?_append_of_eq hrun]
  have hclose := Reading.run?_closingTag hwrite rfl rfl htag
  exact hclose

/-- A document is read when what is after its declaration is one element. -/
theorem read?_of_isMarkup {document : List Char} {root : Xml}
    (h : IsMarkup (withoutDeclaration document) [root]) : read? document = some root := by
  obtain ⟨after, hafter, hrun⟩ := h outside [] [] rfl rfl
  rw [read?, hrun]
  simp [Xml.add, outside, hafter]

theorem withoutDeclaration_append (rest : List Char) :
    withoutDeclaration (declarationLine ++ rest) = rest := by
  simp [withoutDeclaration]

/-- An element that the document begins with is no declaration. -/
theorem withoutDeclaration_of_ne {c : Char} (h : c ≠ '?') (rest : List Char) :
    withoutDeclaration ('<' :: c :: rest) = '<' :: c :: rest := by
  have hline : declarationLine = '<' :: '?' :: declarationLine.drop 2 := by decide
  have hprefix : declarationLine.isPrefixOf ('<' :: c :: rest) = false := by
    rw [hline]
    simp [List.isPrefixOf, h.symm]
  simp only [withoutDeclaration, hprefix, Bool.false_eq_true, if_false]

end MessageCard.Svg
