import MessageCard.Proofs.Binary64.Nearest
import MessageCard.Proofs.Template.FirstFault

/-!
# Values in range

Each item of a template is read from the value at its place in the document, however deep in boxes
and in pages of carousels it is. So what holds of every item that can be read from any value holds
of all items of all templates: fixed sizes are not negative, radii are cut to half of a fixed side,
line limits and pixel sizes fit in 32 bits, and text buttons have a default for what their document
leaves out.
-/
namespace MessageCard

open Json (Field)

/-! ## Radii -/

namespace Binary64

/-- Half of a number that an integer is rounded to is exact. -/
theorem half_value_natCast (n : Nat) : ((n : Binary64) / 2).value = (n : Binary64).value / 2 := by
  have htwo : (2 : Binary64).value = 2 := by decide
  rw [div_def, htwo]
  exact congrArg value (isDouble_half_round n)

theorem natCast_nonneg (n : Nat) : 0 ≤ (n : Binary64).value :=
  round_le_round le_rfl (Nat.cast_nonneg n)

end Binary64

theorem ViewStyle.effectiveRadius_nonneg (s : ViewStyle) (width height : Size) :
    0 ≤ (s.effectiveRadius width height).value := by
  rw [effectiveRadius, Binary64.max_value]
  exact le_max_right _ _

/-- The radius is at most half of a fixed side, unless that is negative. -/
theorem ViewStyle.effectiveRadius_le (s : ViewStyle) {width height : Size} {side : Binary64}
    (h : width = .fixed side ∨ height = .fixed side) :
    (s.effectiveRadius width height).value ≤ max (side / 2).value 0 := by
  rw [effectiveRadius, Binary64.max_value]
  refine max_le_max ?_ le_rfl
  rcases h with rfl | rfl
  · cases height with
    | fixed other =>
      simp only [Binary64.min_value]
      exact (min_le_left _ _).trans (min_le_right _ _)
    | fill | wrap =>
      simp only [Binary64.min_value]
      exact min_le_right _ _
  · simp only [Binary64.min_value]
    exact min_le_right _ _

/-- Whether the fixed sizes of a view are not negative, and the radius that it is drawn with lies
between zero and half of each of them. -/
structure View.IsInRange (v : View) : Prop where
  fixed_nonneg : ∀ side, v.width = .fixed side ∨ v.height = .fixed side → 0 ≤ side.value
  radius_nonneg : 0 ≤ (v.style.effectiveRadius v.width v.height).value
  radius_le_half : ∀ side, v.width = .fixed side ∨ v.height = .fixed side →
    (v.style.effectiveRadius v.width v.height).value ≤ side.value / 2

theorem View.isInRange_of_natCast {v : View}
    (h : ∀ side, v.width = .fixed side ∨ v.height = .fixed side → ∃ n : Nat, side = n) :
    v.IsInRange where
  fixed_nonneg := by
    intro side hside
    obtain ⟨n, rfl⟩ := h side hside
    exact Binary64.natCast_nonneg n
  radius_nonneg := v.style.effectiveRadius_nonneg v.width v.height
  radius_le_half := by
    intro side hside
    obtain ⟨n, rfl⟩ := h side hside
    have hle := v.style.effectiveRadius_le hside
    rw [Binary64.half_value_natCast, max_eq_left (by linarith [Binary64.natCast_nonneg n])] at hle
    exact hle

/-! ## Pixel sizes -/

/-- A pixel size of two positive numbers of 32 bits. -/
structure PixelSize.IsInRange (s : PixelSize) : Prop where
  width_pos : 0 < s.width
  height_pos : 0 < s.height
  width_lt : s.width < 2 ^ 32
  height_lt : s.height < 2 ^ 32

/-- A pixel size in range has a positive ratio. -/
theorem PixelSize.IsInRange.exists_ratio {s : PixelSize} (h : s.IsInRange) :
    ∃ r, s.ratio = some r ∧ 0 < r.value := by
  have hwidth : (0 : Rat) < s.width := by exact_mod_cast h.width_pos
  have hbound : (s.width : Rat) ≤ 2 ^ 32 := by exact_mod_cast h.width_lt.le
  have hheight : (1 : Rat) ≤ s.height := by exact_mod_cast h.height_pos
  have hquotient : (2 : Rat) ^ (-1074 : Int) ≤ s.height / s.width :=
    calc (2 : Rat) ^ (-1074 : Int) ≤ 2 ^ (-32 : Int) :=
          (zpow_le_zpow_iff_right₀ one_lt_two).mpr (by decide)
      _ = 1 / 2 ^ 32 := by norm_num
      _ ≤ s.height / s.width := div_le_div₀ (by linarith) hheight hwidth hbound
  have hne : ¬(s.width = 0 ∨ s.height = 0) :=
    not_or.mpr ⟨h.width_pos.ne', h.height_pos.ne'⟩
  refine ⟨_, if_neg hne, ?_⟩
  rw [Binary64.div_def, Binary64.value_natCast (h.height_lt.le.trans (by decide)),
    Binary64.value_natCast (h.width_lt.le.trans (by decide))]
  exact Binary64.round_pos hquotient

namespace TemplateReader

/-! ## What is read from one value -/

theorem exists_natCast_of_readSize {fallback : Size} {j : Json} {side : Binary64}
    (hfallback : ∀ x, fallback ≠ .fixed x) (h : readSize fallback j = .fixed side) :
    ∃ n : Nat, side = n := by
  rw [readSize] at h
  split at h
  · cases h
    obtain ⟨n, hn⟩ := Int.eq_ofNat_of_zero_le (le_max_right (integer sizeFields j "value") 0)
    refine ⟨n, ?_⟩
    rw [hn]
    rfl
  · split at h <;> cases h
  · exact absurd h (hfallback side)

theorem isInRange_readView (d : StyleDefaults) (j : Json) : (readView d j).IsInRange := by
  have hsize : ∀ {fallback : Size} (value? : Option Json), (∀ x, fallback ≠ .fixed x) →
      ∀ {side}, (value?.map (readSize fallback)).getD fallback = .fixed side →
        ∃ n : Nat, side = n := by
    intro fallback value? hfallback side h
    cases value? with
    | none => exact absurd h (hfallback side)
    | some v => exact exists_natCast_of_readSize hfallback h
  refine View.isInRange_of_natCast fun side hside => ?_
  rcases hside with hside | hside
  · exact hsize _ (fun x h => by cases h) hside
  · exact hsize _ (fun x h => by cases h) hside

theorem isInRange_of_readPixels {j : Json} {s : PixelSize} (h : readPixels j = some s) :
    s.IsInRange := by
  rw [readPixels] at h
  split at h
  case isTrue hrange =>
    cases h
    simp only [greatestLimit] at hrange
    constructor <;> dsimp only <;> omega
  case isFalse => cases h

theorem maxLines_lt {view : View} {lines : Nat} (hlines : lines < 2 ^ 32) (j : Json) :
    (readText view lines j).maxLines < 2 ^ 32 := by
  simp only [readText]
  split
  · simp only [greatestLimit]
    omega
  · exact hlines

/-! ## Text buttons -/

/-- What stands at a field of a record, which may be null. -/
def given? (fields : List Field) (j : Json) (name : String) : Option Json :=
  Json.lookUp name (Json.recordMembers fields j)

/-- The style of an item, without any fields if it is absent or null. -/
def styleOf (j : Json) : Json := (Json.field? viewFields j "viewStyle").getD (.object [])

/-- The length that stands at a side of insets, or zero. -/
def sideOf (insets : Json) (name : String) : Binary64 :=
  ((given? insetsFields insets name).bind Json.toInteger?).getD 0

/-- Whether a text button has what its object gives: a radius, a padding and a line limit. A radius
or a line limit that is absent, null or no number counts as left out, and a padding that is absent
or null, and then the button has the default. -/
structure IsButtonOf (j : Json) (t : TextItem) : Prop where
  radius_default : (∀ x, given? viewStyleFields (styleOf j) "radius" = some x →
    x.toInteger? = none) → t.view.style.radius = some 6
  radius_given : ∀ x n, given? viewStyleFields (styleOf j) "radius" = some x →
    x.toInteger? = some n → t.view.style.radius = some n
  padding_default : (∀ x, given? viewStyleFields (styleOf j) "padding" = some x → x = .null) →
    t.view.style.padding = ⟨10, 10, 20, 20⟩
  padding_given : ∀ x, given? viewStyleFields (styleOf j) "padding" = some x → x ≠ .null →
    t.view.style.padding = ⟨sideOf x "top", sideOf x "bottom", sideOf x "left", sideOf x "right"⟩
  lines_default : (∀ x, given? textFields j "maxTextLines" = some x → x.toInteger? = none) →
    t.maxLines = 1
  lines_given : ∀ x n, given? textFields j "maxTextLines" = some x → x.toInteger? = some n →
    (t.maxLines : Int) = max 0 (min n (2 ^ 32 - 1))

/-- Null is no number, so it need not be left out before numbers are looked for. -/
theorem integer?_eq (fields : List Field) (j : Json) (name : String) :
    integer? fields j name = (given? fields j name).bind Json.toInteger? := by
  rw [integer?, Json.field?, given?]
  cases Json.lookUp name (Json.recordMembers fields j) with
  | none => rfl
  | some v => cases v <;> rfl

theorem integer?_eq_none {fields : List Field} {j : Json} {name : String}
    (h : ∀ x, given? fields j name = some x → x.toInteger? = none) :
    integer? fields j name = none := by
  rw [integer?_eq]
  exact Option.bind_eq_none_iff.mpr h

theorem integer?_eq_some {fields : List Field} {j x : Json} {name : String} {n : Int}
    (h : given? fields j name = some x) (hn : x.toInteger? = some n) :
    integer? fields j name = some n := by
  rw [integer?_eq, h, Option.bind_some, hn]

theorem isButtonOf_readText (j : Json) :
    IsButtonOf j (readText (readView buttonDefaults j) buttonLines j) where
  radius_default := by
    intro h
    simp only [readText, readView, readViewStyle, length?]
    rw [← styleOf, integer?_eq_none h]
    rfl
  radius_given := by
    intro x n h hn
    simp only [readText, readView, readViewStyle, length?]
    rw [← styleOf, integer?_eq_some h hn]
    rfl
  padding_default := by
    intro h
    have hfield : Json.field? viewStyleFields (styleOf j) "padding" = none := by
      refine Option.filter_eq_none_iff.mpr fun x hx => ?_
      rw [h x hx]
      decide
    simp only [readText, readView, readViewStyle]
    rw [← styleOf, hfield]
    rfl
  padding_given := by
    intro x h hne
    have hfield : Json.field? viewStyleFields (styleOf j) "padding" = some x := by
      refine Option.filter_eq_some_iff.mpr ⟨h, ?_⟩
      cases x with
      | null => exact absurd rfl hne
      | _ => rfl
    simp only [readText, readView, readViewStyle]
    rw [← styleOf, hfield]
    simp only [Option.map_some, Option.getD_some, readInsets, integer, integer?_eq, sideOf]
  lines_default := by
    intro h
    simp only [readText, integer?_eq_none h]
    rfl
  lines_given := by
    intro x n h hn
    simp only [readText, integer?_eq_some h hn, greatestLimit]
    omega

/-! ## Places in templates -/

/-- What is met in a template: the template itself or one on a page, the items of its body, or an
item. -/
inductive Branch where
  | template (t : Template)
  | body (items : List Item)
  | item (i : Item)

namespace Branch

/-- What is one step further, at the body of a template, at an item of a body or of a box, or at a
page of a carousel. -/
def into : Branch → PathStep → Option Branch
  | .template t, .body => t.body.map .body
  | .body items, .item k => items[k]?.map .item
  | .item (.box _ _ items _), .item k => items[k]?.map .item
  | .item (.carousel _ pages _), .item k => pages[k]?.map .template
  | _, _ => none

/-- What is met after some steps. -/
def along : List PathStep → Branch → Option Branch
  | [], b => some b
  | s :: rest, b => (b.into s).bind (along rest)

/-- Whether a branch is read from a value. -/
def IsReadFrom (j : Json) : Branch → Prop
  | .template t => ∃ path, readTemplate j path = .ok t
  | .body items => ∃ path, readItems (bodyElements j) path 0 = .ok items
  | .item i => ∃ path, readItem j path = .ok i

end Branch

/-- What is read at an index is read from the value there. -/
theorem exists_of_readEach {α : Type} {read : Json → String → Except TemplateFault α}
    {parent : String} {js : List Json} {index : Nat} {as : List α}
    (h : readEach read parent js index = .ok as) {k : Nat} {a : α} (ha : as[k]? = some a) :
    ∃ j path, js[k]? = some j ∧ read j path = .ok a := by
  induction js generalizing index as k with
  | nil =>
    cases h
    simp at ha
  | cons j rest ih =>
    obtain ⟨first, hfirst, h⟩ := bind_eq_ok_iff.mp h
    obtain ⟨more, hmore, h⟩ := bind_eq_ok_iff.mp h
    cases h
    cases k with
    | zero =>
      cases ha
      exact ⟨j, _, rfl, hfirst⟩
    | succ k => exact ih hmore ha

/-- What an item can be, by the kind that its object names. -/
inductive IsItemOf (j : Json) : Item → Prop
  | box {items : List Item} {path : String}
      (read : readItems (bodyElements j) path 0 = .ok items) :
      IsItemOf j (.box (readView plainDefaults j) (readDirection j) items (alignOf boxFields j))
  | text : IsItemOf j (.text false (readText (readView plainDefaults j) 0 j))
  | button : IsItemOf j (.text true (readText (readView buttonDefaults j) buttonLines j))
  | image (isButton : Bool) : IsItemOf j (.image isButton (readImage (readView plainDefaults j) j))
  | carousel {pages : List Template} {path : String} (spacing : Binary64)
      (read : readPages (bodyElements j) path 0 = .ok pages) :
      IsItemOf j (.carousel (readView plainDefaults j) pages spacing)

theorem isItemOf_of_readItem {j : Json} {path : String} {i : Item}
    (h : readItem j path = .ok i) : IsItemOf j i := by
  rw [readItem_eq] at h
  obtain ⟨tag, hcheck, h⟩ := bind_eq_ok_iff.mp h
  obtain ⟨htag, hkind⟩ := kind_of_checkItem hcheck
  simp only [itemKinds, List.mem_cons, List.not_mem_nil, or_false] at hkind
  rcases hkind with rfl | rfl | rfl | rfl | rfl | rfl
  · obtain ⟨items, hitems, h⟩ := bind_eq_ok_iff.mp h
    cases h
    rw [elements_object htag] at hitems
    exact .box hitems
  · cases h
    exact .text
  · cases h
    exact .button
  · cases h
    exact .image false
  · cases h
    exact .image true
  · obtain ⟨pages, hpages, h⟩ := bind_eq_ok_iff.mp h
    cases h
    rw [elements_object htag] at hpages
    exact .carousel _ hpages

namespace Branch

/-- One step in a template goes with the same step in the document. -/
theorem IsReadFrom.into {b c : Branch} {s : PathStep} {j : Json} (h : b.IsReadFrom j)
    (hc : b.into s = some c) : ∃ k, s.into j = some k ∧ c.IsReadFrom k := by
  have helement : ∀ {α : Type} {read : Json → String → Except TemplateFault α} {make : α → Branch}
      {path : String} {as : List α} {k : Nat},
      (∀ {v p a}, read v p = .ok a → (make a).IsReadFrom v) →
      readEach read path (bodyElements j) 0 = .ok as → as[k]?.map make = some c →
        ∃ v, (PathStep.item k).into j = some v ∧ c.IsReadFrom v := by
    intro α read make path as k hmake hread hmap
    obtain ⟨a, ha, rfl⟩ := Option.map_eq_some_iff.mp hmap
    obtain ⟨v, p, hv, hp⟩ := exists_of_readEach hread ha
    exact ⟨v, hv, hmake hp⟩
  have hitem : ∀ {v p i}, readItem v p = .ok i → (item i).IsReadFrom v := fun h => ⟨_, h⟩
  have htemplate : ∀ {v p t}, readTemplate v p = .ok t → (template t).IsReadFrom v :=
    fun h => ⟨_, h⟩
  cases b with
  | template t =>
    cases s with
    | item k => cases hc
    | body =>
      obtain ⟨items, hbody, rfl⟩ := Option.map_eq_some_iff.mp hc
      obtain ⟨path, h⟩ := h
      rw [readTemplate_eq] at h
      obtain ⟨_, -, h⟩ := bind_eq_ok_iff.mp h
      cases hpresent : body? j with
      | none =>
        rw [hpresent] at h
        cases h
        cases hbody
      | some value =>
        rw [hpresent] at h
        obtain ⟨read, hread, h⟩ := bind_eq_ok_iff.mp h
        cases h
        cases hbody
        exact ⟨value, hpresent, _, hread⟩
  | body items =>
    cases s with
    | body => cases hc
    | item k =>
      obtain ⟨path, h⟩ := h
      rw [readItems_eq] at h
      exact helement hitem h hc
  | item i =>
    obtain ⟨path, h⟩ := h
    cases s with
    | body => cases i <;> cases hc
    | item k =>
      cases isItemOf_of_readItem h with
      | box hread =>
        rw [readItems_eq] at hread
        exact helement hitem hread hc
      | carousel spacing hread =>
        rw [readPages_eq] at hread
        exact helement htemplate hread hc
      | text | button | image isButton => cases hc

/-- What is met in a template is read from what the same steps lead to in its document. -/
theorem IsReadFrom.along {b c : Branch} {steps : List PathStep} {j : Json} (h : b.IsReadFrom j)
    (hc : b.along steps = some c) : ∃ k, follow steps j = some k ∧ c.IsReadFrom k := by
  induction steps generalizing b j with
  | nil =>
    cases hc
    exact ⟨j, rfl, h⟩
  | cons s rest ih =>
    obtain ⟨next, hnext, hc⟩ := Option.bind_eq_some_iff.mp hc
    obtain ⟨v, hv, hread⟩ := h.into hnext
    obtain ⟨k, hk, hlast⟩ := ih hread hc
    exact ⟨k, by rw [follow, hv, Option.bind_some, hk], hlast⟩

end Branch

/-! ## Items -/

variable {j : Json} {i : Item}

theorem IsItemOf.isInRange_view (h : IsItemOf j i) : i.view.IsInRange := by
  cases h <;> exact isInRange_readView _ j

theorem IsItemOf.isInRange_pixels {isButton : Bool} {image : ImageItem}
    (h : IsItemOf j (.image isButton image)) {s : PixelSize} (hs : image.pixels = some s) :
    s.IsInRange := by
  cases h
  obtain ⟨v, -, hv⟩ := Option.bind_eq_some_iff.mp hs
  exact isInRange_of_readPixels hv

theorem IsItemOf.maxLines_lt {isButton : Bool} {text : TextItem}
    (h : IsItemOf j (.text isButton text)) : text.maxLines < 2 ^ 32 := by
  cases h <;> exact TemplateReader.maxLines_lt (by decide) j

theorem IsItemOf.isButtonOf {text : TextItem} (h : IsItemOf j (.text true text)) :
    IsButtonOf j text := by
  cases h
  exact isButtonOf_readText j

end TemplateReader

open TemplateReader

/-- Every item of a template that is read is in range, however deep in boxes and in pages of
carousels it is. The fixed sizes of its view are not negative, and the radius that it is drawn with
is not either and is at most half of each of them. The pixel size of an image is absent, or both of
its numbers are positive and it has a positive ratio. The line limit of a text fits in 32 bits. A
text button has what the object at its place in the document gives, and the defaults of text buttons
for what that leaves out. -/
theorem Template.ofJson_in_range {j : Json} {t : Template} (h : Template.ofJson j = .ok t)
    {steps : List PathStep} {item : Item}
    (hitem : (Branch.template t).along steps = some (.item item)) :
    item.view.IsInRange ∧
    (∀ isButton image, item = .image isButton image → image.pixels = none ∨
      ∃ s, image.pixels = some s ∧ s.IsInRange ∧ ∃ r, s.ratio = some r ∧ 0 < r.value) ∧
    (∀ isButton text, item = .text isButton text → text.maxLines < 2 ^ 32) ∧
    ∀ text, item = .text true text → ∃ v, follow steps j = some v ∧ IsButtonOf v text := by
  have hread : (Branch.template t).IsReadFrom j := ⟨"template", h⟩
  obtain ⟨v, hv, path, hpath⟩ := hread.along hitem
  have hof := isItemOf_of_readItem hpath
  refine ⟨hof.isInRange_view, ?_, ?_, ?_⟩
  · rintro isButton image rfl
    cases hpixels : image.pixels with
    | none => exact .inl rfl
    | some s =>
      have hrange := hof.isInRange_pixels hpixels
      exact .inr ⟨s, rfl, hrange, hrange.exists_ratio⟩
  · rintro isButton text rfl
    exact hof.maxLines_lt
  · rintro text rfl
    exact ⟨v, hv, hof.isButtonOf⟩

/-- A text button on a page of a carousel, with a fixed width and a radius that is more than half of
it, without a padding, and with a line limit that is no number. -/
theorem Template.ofJson_in_range_of_button_on_page :
    let inBody (value : Json) : Json := .object [("body", .object [("items", .array [value])])]
    let button : Json := .object [("maxTextLines", .string "many"), ("text", .string "Go"),
      ("type", .string "textButton"), ("viewStyle", .object [("radius", .string "9")]),
      ("width", .object [("type", .string "fixed"), ("value", .number (.integer 8))])]
    let carousel : Json :=
      .object [("items", .array [inBody button]), ("type", .string "carouselView")]
    ∃ t text, Template.ofJson (inBody carousel) = .ok t ∧
      (Branch.template t).along [.body, .item 0, .item 0, .body, .item 0] =
        some (.item (.text true text)) ∧
      text.view.style.radius = some 9 ∧ text.view.style.padding = ⟨10, 10, 20, 20⟩ ∧
      text.maxLines = 1 ∧
      (text.view.style.effectiveRadius text.view.width text.view.height).value ≤ 4 := by
  intro inBody button carousel
  have htemplate : ∀ {value : Json} {i : Item}, (∀ path, readItem value path = .ok i) →
      ∀ path, readTemplate (inBody value) path = .ok ⟨0, some [i]⟩ := by
    intro value i hread path
    have hitems : readItems [value] (path ++ ".body") 0 = .ok [i] := by
      rw [readItems_eq, readEach, hread]
      rfl
    have hbody : body? (inBody value) = some (.object [("items", .array [value])]) := rfl
    have hcheck : checkTemplate path (inBody value) = .ok () := rfl
    rw [readTemplate_eq, hbody, hcheck]
    exact congrArg (· >>= fun items => .ok (⟨0, some items⟩ : Template)) hitems
  let text := readText (readView buttonDefaults button) buttonLines button
  let pages : List Template := [⟨0, some [.text true text]⟩]
  have hbutton : ∀ path, readItem button path = .ok (.text true text) := by
    intro path
    rw [readItem_eq]
    rfl
  have hcarousel : ∀ path,
      readItem carousel path = .ok (.carousel View.plain pages carouselSpacing) := by
    intro path
    have hpages : readPages [inBody button] path 0 = .ok pages := by
      rw [readPages_eq, readEach, htemplate hbutton]
      rfl
    have hcheck : checkItem path carousel = .ok "carouselView" := rfl
    rw [readItem_eq, hcheck]
    exact congrArg (· >>= fun pages => .ok (Item.carousel View.plain pages carouselSpacing)) hpages
  have hplace : (Branch.template ⟨0, some [.carousel View.plain pages carouselSpacing]⟩).along
      [.body, .item 0, .item 0, .body, .item 0] = some (.item (.text true text)) := rfl
  have hdocument := htemplate hcarousel "template"
  obtain ⟨hrange, -, -, hgiven⟩ := Template.ofJson_in_range hdocument hplace
  obtain ⟨v, hv, hof⟩ := hgiven text rfl
  obtain rfl : button = v := Option.some.inj hv
  refine ⟨_, text, hdocument, hplace, ?_, ?_, ?_, ?_⟩
  · exact hof.radius_given (.string "9") 9 rfl (by decide)
  · exact hof.padding_default fun x hx => by cases hx
  · refine hof.lines_default fun x hx => ?_
    cases hx
    decide
  · have hwidth : (8 : Binary64).value = 8 := by decide
    refine (hrange.radius_le_half 8 (.inl rfl)).trans ?_
    rw [hwidth]
    norm_num

end MessageCard
