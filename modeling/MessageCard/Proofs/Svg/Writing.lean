import MessageCard.Proofs.Svg.Markup
import MessageCard.Proofs.Text.Decimal

/-!
# Elements are read back

An element is sound when its names are names, its attributes have different names, and its values
and texts are escaped. What is written for sound elements is read back as these elements, at any
depth and however the lines are broken and indented. Numbers need no escaping.
-/
namespace MessageCard.Svg

/-! ## Plain texts -/

theorem isPlain_of_isDigits {s : List Char} (h : Decimal.IsDigits s) : IsPlain s := by
  intro c hc hspecial
  have hnone : special.any Decimal.isDigit = false := by decide
  exact absurd (List.any_eq_true.mpr ⟨c, hspecial, h c hc⟩) (by simp [hnone])

theorem isPlain_of_white {white : List Char} (h : white.all isWhite) : IsPlain white := by
  intro c hc hspecial
  have hnone : special.any isWhite = false := by decide
  exact absurd (List.any_eq_true.mpr ⟨c, hspecial, List.all_eq_true.mp h c hc⟩) (by simp [hnone])

theorem isPlain_toPlain (a : Binary64) : IsPlain a.toPlain.toList := by
  have hsign : IsPlain a.signChars := by
    unfold Binary64.signChars
    split <;> decide
  have hdigits : IsPlain (Binary64.digitChars a.shortest.digits) :=
    isPlain_of_isDigits (Decimal.isDigits_toDigits _)
  have hzeros : ∀ n, IsPlain (List.replicate n '0') :=
    fun n => isPlain_of_isDigits (Decimal.isDigits_zeros n)
  rw [Binary64.toPlain, String.toList_ofList]
  refine hsign.append ?_
  simp only [Binary64.positional]
  split
  · exact (hdigits.append (hzeros _)).append (by decide)
  · have hpoint : IsPlain ['.'] := by decide
    split
    · exact (hdigits.of_subset (List.take_subset _ _)).append
        (hpoint.append (hdigits.of_subset (List.drop_subset _ _)))
    · exact (hzeros 1).append (hpoint.append ((hzeros _).append hdigits))

theorem isPlain_toString (n : Nat) : IsPlain (toString n).toList := by
  have hdigits := isPlain_of_isDigits (Decimal.isDigits_toDigits n)
  simpa [toString, Nat.repr] using hdigits

theorem isPlain_intercalate {separator : String} {parts : List String}
    (hseparator : IsPlain separator.toList) (hparts : ∀ p ∈ parts, IsPlain p.toList) :
    IsPlain (separator.intercalate parts).toList := by
  rw [String.toList_intercalate]
  induction parts with
  | nil => exact fun c hc => absurd hc List.not_mem_nil
  | cons p rest ih =>
    obtain ⟨hp, hrest⟩ := List.forall_mem_cons.mp hparts
    cases rest with
    | nil => simpa using hp
    | cons q others =>
      rw [List.map_cons, List.map_cons, List.intercalate_cons_cons]
      exact (hp.append hseparator).append (ih hrest)

/-! ## Attributes -/

namespace Attribute

@[simp] theorem name_text (name value : String) : (text name value).name = name := rfl

@[simp] theorem name_word (name value : String) : (word name value).name = name := rfl

@[simp] theorem name_number (name : String) (value : Binary64) : (number name value).name = name :=
  rfl

theorem isEscaped_text (name value : String) : (text name value).IsEscaped :=
  ⟨value.toList, by rw [text]⟩

theorem isEscaped_word (name : String) {value : String} (h : IsPlain value.toList) :
    (word name value).IsEscaped := ⟨value.toList, h.escape_eq.symm⟩

theorem isEscaped_number (name : String) (value : Binary64) : (number name value).IsEscaped := by
  rw [number]
  exact isEscaped_word name (isPlain_toPlain value)

end Attribute

/-- Escaped attributes with some of the given names, which are different. -/
theorem areSound_of_sublist {attributes : List Attribute} (names : List String)
    (hnames : names.Nodup ∧ ∀ name ∈ names, isName name.toList)
    (hsublist : (attributes.map (·.name)).Sublist names)
    (hescaped : ∀ a ∈ attributes, a.IsEscaped) : AreSound attributes where
  each := fun a ha =>
    ⟨hnames.2 _ (hsublist.subset (List.mem_map_of_mem ha)), hescaped a ha⟩
  nodup := hnames.1.sublist hsublist

theorem areSound_word (name : String) {value : String} (hname : isName name.toList)
    (hvalue : IsPlain value.toList) : AreSound [.word name value] where
  each := List.forall_mem_singleton.mpr ⟨hname, Attribute.isEscaped_word name hvalue⟩
  nodup := List.nodup_singleton _

/-! ## Elements -/

namespace Element

/-- An element that is read back from what is written for it. -/
inductive IsSound : Element → Prop where
  | leaf {tag : String} {attributes : List Attribute} (htag : isName tag.toList)
      (h : AreSound attributes) : IsSound (.leaf tag attributes)
  | text {tag : String} {attributes : List Attribute} (content : List Char)
      (htag : isName tag.toList) (hholds : tag = "text" ∨ tag = "style")
      (h : AreSound attributes) : IsSound (.text tag attributes (escape content))
  | group {tag : String} {attributes : List Attribute} {children : List Element}
      (htag : isName tag.toList) (hholds : tag ≠ "text" ∧ tag ≠ "style")
      (h : AreSound attributes) (hchildren : ∀ e ∈ children, IsSound e) :
      IsSound (.group tag attributes children)

mutual

/-- An element as it is read. -/
def read : Element → Xml
  | .leaf tag attributes => ⟨tag, attributes.map (·.read), "", []⟩
  | .text tag attributes written =>
    ⟨tag, attributes.map (·.read), .ofList ((decode? written).getD []), []⟩
  | .group tag attributes children => ⟨tag, attributes.map (·.read), "", readAll children⟩

/-- Elements with one parent as they are read. -/
def readAll : List Element → List Xml
  | [] => []
  | e :: rest => e.read :: readAll rest

end

theorem readAll_eq_map (es : List Element) : readAll es = es.map read := by
  induction es with
  | nil => rfl
  | cons e rest ih => rw [readAll, ih, List.map_cons]

end Element

theorem all_isWhite_replicate (n : Nat) : (List.replicate n ' ').all isWhite := by
  simp only [List.all_eq_true, List.mem_replicate]
  rintro c ⟨-, rfl⟩
  decide

/-- Lines, each on from a line break. -/
def broken (lineBreak : List Char) (ls : List (List Char)) : List Char :=
  ls.flatMap (lineBreak ++ ·)

theorem broken_append (lineBreak : List Char) (ls ms : List (List Char)) :
    broken lineBreak (ls ++ ms) = broken lineBreak ls ++ broken lineBreak ms := List.flatMap_append

theorem broken_cons (lineBreak l : List Char) (ls : List (List Char)) :
    broken lineBreak (l :: ls) = lineBreak ++ (l ++ broken lineBreak ls) := by
  rw [broken, List.flatMap_cons, List.append_assoc]
  rfl

theorem intercalate_eq_broken (lineBreak l : List Char) (ls : List (List Char)) :
    lineBreak.intercalate (l :: ls) = l ++ broken lineBreak ls := by
  induction ls generalizing l with
  | nil => simp [broken]
  | cons m rest ih => rw [List.intercalate_cons_cons, ih, broken_cons, List.append_assoc]

theorem all_isWhite_append {s t : List Char} (hs : s.all isWhite) (ht : t.all isWhite) :
    (s ++ t).all isWhite := by rw [List.all_append, hs, ht, Bool.and_self]

theorem IsMarkup.white_append {white written : List Char} {xs : List Xml} (h : IsMarkup written xs)
    (hwhite : white.all isWhite) : IsMarkup (white ++ written) xs :=
  (isMarkup_of_white hwhite).append h

theorem IsMarkup.append_white {white written : List Char} {xs : List Xml} (h : IsMarkup written xs)
    (hwhite : white.all isWhite) : IsMarkup (written ++ white) xs := by
  simpa using h.append (isMarkup_of_white hwhite)

theorem isMarkup_linesOf_of_each {lineBreak : List Char} {indent depth : Nat} {es : List Element}
    (h : ∀ e ∈ es, IsMarkup (broken lineBreak (lines indent depth e)) [e.read]) :
    IsMarkup (broken lineBreak (linesOf indent depth es)) (es.map (·.read)) := by
  induction es with
  | nil => exact isMarkup_nil
  | cons e rest ih =>
    obtain ⟨he, hrest⟩ := List.forall_mem_cons.mp h
    rw [linesOf, broken_append]
    exact he.append (ih hrest)

section

variable {lineBreak : List Char} (hbreak : lineBreak.all isWhite) (indent : Nat)
include hbreak

/-- What is written for a sound element is read back, at every depth. -/
theorem Element.IsSound.isMarkup {e : Element} (h : e.IsSound) (depth : Nat) :
    IsMarkup (broken lineBreak (lines indent depth e)) [e.read] := by
  have hspace := all_isWhite_replicate (indent * depth)
  induction h generalizing depth with
  | leaf htag h =>
    rw [lines, broken_cons, List.append_assoc]
    exact (((isMarkup_writeLeaf htag h).append_white rfl).white_append hspace).white_append hbreak
  | text content htag hholds h =>
    rw [lines, broken_cons, List.append_assoc, read, decode?_escape]
    exact (((isMarkup_text htag hholds h).append_white rfl).white_append hspace).white_append hbreak
  | @group tag attributes children htag hholds h _ ih =>
    have hinside := isMarkup_linesOf_of_each fun e he =>
      ih e he (depth + 1) (all_isWhite_replicate _)
    have hgroup := ((hinside.append_white hbreak).append_white hspace).group htag hholds h
    rw [read, readAll_eq_map]
    have hlines : broken lineBreak (lines indent depth (.group tag attributes children)) =
        lineBreak ++ (List.replicate (indent * depth) ' ' ++ (writeTag tag attributes ++
          '>' :: (((broken lineBreak (linesOf indent (depth + 1) children) ++ lineBreak) ++
            List.replicate (indent * depth) ' ') ++ closingTag tag))) := by
      simp [lines, broken]
    rw [hlines]
    exact (hgroup.white_append hspace).white_append hbreak

theorem isMarkup_linesOf {es : List Element} (h : ∀ e ∈ es, e.IsSound) (depth : Nat) :
    IsMarkup (broken lineBreak (linesOf indent depth es)) (es.map (·.read)) :=
  isMarkup_linesOf_of_each fun e he => (h e he).isMarkup hbreak indent depth

theorem isMarkup_broken {written : List (List Char)} {xs : List Xml}
    (h : List.Forall₂ (fun l x => IsMarkup l [x]) written xs) :
    IsMarkup (broken lineBreak written) xs := by
  induction h with
  | nil => exact isMarkup_nil
  | @cons l x ls xs hfirst _ ih =>
    rw [broken_cons]
    exact (hfirst.append ih).white_append hbreak

end

end MessageCard.Svg
