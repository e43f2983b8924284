import Mathlib.Logic.Basic
import MessageCard.Proofs.Json.Holes
import MessageCard.Proofs.Json.Spelling
import MessageCard.Proofs.Template.Reading

/-!
# Numbers spoil nothing

A template document holds numbers in many places, and producers write them in many ways. Whatever
stands where the reader expects a number, the document is read as far as without it: a document with
a fault keeps its fault, and a template differs at most in what the number decides. What it decides
depends on the integer alone for which the value stands.

The statement is about documents with a hole where a number belongs. Readings of such a document are
functions of what fills the hole, and are followed outward from the number, through the records of
its item and through items and pages, to the whole template.
-/
namespace MessageCard

open Json (Field RecordHole ObjectHole RecordWay WayHole IsLenient ChecksAlike)

namespace TemplateReader

/-! ## Readings -/

/-- A reading of a number: it depends on the integer that is read alone, and whatever the number,
the outcomes are alike. -/
structure ReadsNumber {α : Type} (alike : α → α → Prop) (read : Json → α) : Prop where
  alike : ∀ v w, alike (read v) (read w)
  congr : ∀ v w, v.toInteger? = w.toInteger? → read v = read w

/-- A reading that fails with the same error whatever the number, or reads it. -/
def ReadsLeniently {ε α : Type} (alike : α → α → Prop) (read : Json → Except ε α) : Prop :=
  (∃ e, ∀ v, read v = .error e) ∨
    ∃ value : Json → α, (∀ v, read v = .ok (value v)) ∧ ReadsNumber alike value

/-- The same apart from what is forgotten. -/
def SameWithout {α : Type} (forget : α → α) (x y : α) : Prop := forget x = forget y

section Readings

variable {ε α β γ : Type} {R : α → α → Prop} {S : β → β → Prop} {T : γ → γ → Prop}

theorem ReadsNumber.const (f : α → α) {read : Json → α} (hread : ∀ v w, read v = read w) :
    ReadsNumber (SameWithout f) read :=
  ⟨fun v w => congrArg f (hread v w), fun v w _ => hread v w⟩

theorem ReadsNumber.of_eq {read other : Json → α} (hother : ReadsNumber R other)
    (heq : ∀ v, read v = other v) : ReadsNumber R read :=
  (funext heq : read = other) ▸ hother

theorem ReadsNumber.map {read : Json → α} (hread : ReadsNumber R read) (k : α → β)
    (hk : ∀ x y, R x y → S (k x) (k y)) : ReadsNumber S fun v => k (read v) :=
  ⟨fun v w => hk _ _ (hread.alike v w), fun v w hvw => congrArg k (hread.congr v w hvw)⟩

theorem ReadsNumber.map₂ {read : Json → α} {other : Json → β} (hread : ReadsNumber R read)
    (hother : ReadsNumber S other) (k : α → β → γ)
    (hk : ∀ x y x' y', R x y → S x' y' → T (k x x') (k y y')) :
    ReadsNumber T fun v => k (read v) (other v) :=
  ⟨fun v w => hk _ _ _ _ (hread.alike v w) (hother.alike v w),
    fun v w hvw => congrArg₂ k (hread.congr v w hvw) (hother.congr v w hvw)⟩

theorem ReadsNumber.ok {read : Json → α} (hread : ReadsNumber R read) :
    ReadsLeniently R fun v => (.ok (read v) : Except ε α) :=
  .inr ⟨read, fun _ => rfl, hread⟩

/-- What is read leniently can be read on with something that does not depend on the number. -/
theorem ReadsLeniently.bind {read : Json → Except ε α} (hread : ReadsLeniently R read)
    {k : α → Json → Except ε β} (hk : ∀ value : Json → α, ReadsNumber R value →
      ReadsLeniently S fun v => k (value v) v) : ReadsLeniently S fun v => read v >>= (k · v) := by
  obtain ⟨e, he⟩ | ⟨value, hvalue, hnumber⟩ := hread
  · exact .inl ⟨e, fun v => by simp only [he]; rfl⟩
  · have hread : (fun v => read v >>= (k · v)) = fun v => k (value v) v := by
      funext v
      rw [hvalue]
      rfl
    rw [hread]
    exact hk value hnumber

/-- What is read first may have nothing to do with the number. -/
theorem ReadsLeniently.after {first : Json → Except ε α} (hfirst : ∀ v w, first v = first w)
    {k : α → Json → Except ε β} (hk : ∀ a, ReadsLeniently S (k a)) :
    ReadsLeniently S fun v => first v >>= (k · v) := by
  cases ha : first .null with
  | error e => exact .inl ⟨e, fun v => by simp only [hfirst v .null, ha]; rfl⟩
  | ok a =>
    have hread : (fun v => first v >>= (k · v)) = k a := by
      funext v
      rw [hfirst v .null, ha]
      rfl
    rw [hread]
    exact hk a

end Readings

/-! ## Numbers of an item -/

/-- A side of insets. -/
inductive Edge where
  | top
  | bottom
  | left
  | right

namespace Edge

/-- The name of the side's field. -/
def name : Edge → String
  | .top => "top"
  | .bottom => "bottom"
  | .left => "left"
  | .right => "right"

/-- The inset on this side. -/
def inset : Edge → Insets → Binary64
  | .top, i => i.top
  | .bottom, i => i.bottom
  | .left, i => i.left
  | .right, i => i.right

/-- The insets without this side. -/
def clear : Edge → Insets → Insets
  | .top, i => { i with top := 0 }
  | .bottom, i => { i with bottom := 0 }
  | .left, i => { i with left := 0 }
  | .right, i => { i with right := 0 }

theorem name_injective : Function.Injective name := by
  intro d e h
  cases d <;> cases e <;> first | rfl | exact absurd h (by decide)

theorem clear_congr {e : Edge} {i j : Insets} (h : ∀ d, d ≠ e → d.inset i = d.inset j) :
    e.clear i = e.clear j := by
  have htop := h .top
  have hbottom := h .bottom
  have hleft := h .left
  have hright := h .right
  cases e <;> simp_all [clear, inset]

end Edge

/-- The numbers that an item's object may hold. -/
inductive ItemNumber where
  | width
  | height
  | borderWidth
  | radius
  | margin (e : Edge)
  | padding (e : Edge)
  | maxLines
  | textSize
  | pixelWidth
  | pixelHeight
  | spacing

/-- The size without its value. -/
def sizeKind : Size → Size
  | .fixed _ => .fixed 0
  | .fill => .fill
  | .wrap => .fill

namespace ItemNumber

/-- The fields of the record that the number is part of, as it stands in the item's object. -/
def fields : ItemNumber → List Field
  | .maxLines | .textSize => textFields
  | .pixelWidth | .pixelHeight => imageFields
  | .spacing => carouselFields
  | _ => viewFields

/-- The key of the item's object under which the number is found. -/
def key : ItemNumber → String
  | .width => "width"
  | .height => "height"
  | .borderWidth | .radius | .margin _ | .padding _ => "viewStyle"
  | .maxLines => "maxTextLines"
  | .textSize => "textStyle"
  | .pixelWidth | .pixelHeight => "metaData"
  | .spacing => "spacing"

/-- The records that lead from there to the number. -/
def way : ItemNumber → RecordWay
  | .width | .height => [(sizeFields, "value")]
  | .borderWidth => [(viewStyleFields, "borderWidth")]
  | .radius => [(viewStyleFields, "radius")]
  | .margin e => [(viewStyleFields, "margin"), (insetsFields, e.name)]
  | .padding e => [(viewStyleFields, "padding"), (insetsFields, e.name)]
  | .textSize => [(textStyleFields, "size")]
  | .pixelWidth => [(metaDataFields, "pixelWidth")]
  | .pixelHeight => [(metaDataFields, "pixelHeight")]
  | .maxLines | .spacing => []

/-- Nothing is checked about the number. -/
theorem isLenient (n : ItemNumber) : IsLenient ((n.fields, n.key) :: n.way) := by
  cases n with
  | width => exact .record rfl (.any rfl)
  | height => exact .record rfl (.any rfl)
  | borderWidth => exact .record rfl (.any rfl)
  | radius => exact .record rfl (.any rfl)
  | margin e => exact .record rfl (.record rfl (.any (by cases e <;> rfl)))
  | padding e => exact .record rfl (.record rfl (.any (by cases e <;> rfl)))
  | maxLines => exact .any rfl
  | textSize => exact .record rfl (.any rfl)
  | pixelWidth => exact .record rfl (.any rfl)
  | pixelHeight => exact .record rfl (.any rfl)
  | spacing => exact .any rfl

/-- A style without what the number decides. -/
def styleWithout : ItemNumber → ViewStyle → ViewStyle
  | .borderWidth, s => { s with borderWidth := none }
  | .radius, s => { s with radius := none }
  | .margin e, s => { s with margin := e.clear s.margin }
  | .padding e, s => { s with padding := e.clear s.padding }
  | _, s => s

/-- A view without what the number decides. -/
def viewWithout : ItemNumber → View → View
  | .width, v => { v with width := sizeKind v.width }
  | .height, v => { v with height := sizeKind v.height }
  | n, v => { v with style := n.styleWithout v.style }

/-- A text without what the number decides. -/
def textWithout : ItemNumber → TextItem → TextItem
  | .maxLines, t => { t with maxLines := 0 }
  | .textSize, t => { t with style := { t.style with size := none } }
  | n, t => { t with view := n.viewWithout t.view }

/-- An image without what the number decides. A pixel number decides whether there is a pixel size,
and no more of that size than its own side. -/
def imageWithout : ItemNumber → ImageItem → ImageItem
  | .pixelWidth, i => { i with pixels := none }
  | .pixelHeight, i => { i with pixels := none }
  | n, i => { i with view := n.viewWithout i.view }

/-- The side of a pixel size that the number leaves alone, if it decides about pixel sizes. -/
def otherSide? : ItemNumber → Option (PixelSize → Nat)
  | .pixelWidth => some (·.height)
  | .pixelHeight => some (·.width)
  | _ => none

/-- The spacing of a carousel without what the number decides. -/
def spacingWithout : ItemNumber → Binary64 → Binary64
  | .spacing, _ => 0
  | _, s => s

/-- An item without what the number decides. -/
def without (n : ItemNumber) : Item → Item
  | .box view direction items align => .box (n.viewWithout view) direction items align
  | .text isButton t => .text isButton (n.textWithout t)
  | .image isButton i => .image isButton (n.imageWithout i)
  | .carousel view pages gap => .carousel (n.viewWithout view) pages (n.spacingWithout gap)

end ItemNumber

/-- Pixel sizes that agree in a side. If one of them is absent, there is nothing to agree in. -/
def AgreeIn (side : PixelSize → Nat) (p q : Option PixelSize) : Prop :=
  ∀ a ∈ p, ∀ b ∈ q, side a = side b

/-- The pixel size that is stated for an item. -/
def pixels? : Item → Option PixelSize
  | .image _ i => i.pixels
  | _ => none

/-- Images that differ in no more than what the number decides. -/
def ItemNumber.ImagesAlike (n : ItemNumber) (i j : ImageItem) : Prop :=
  n.imageWithout i = n.imageWithout j ∧ ∀ side ∈ n.otherSide?, AgreeIn side i.pixels j.pixels

/-- Items that differ in no more than what the number decides. -/
def ItemNumber.Alike (n : ItemNumber) (x y : Item) : Prop :=
  n.without x = n.without y ∧ ∀ side ∈ n.otherSide?, AgreeIn side (pixels? x) (pixels? y)

/-- Items other than images have no pixel size to differ in. -/
theorem ItemNumber.alike_of_pixels?_eq_none {n : ItemNumber} {x y : Item}
    (h : n.without x = n.without y) (hx : pixels? x = none) : n.Alike x y := by
  refine ⟨h, fun _ _ a ha => ?_⟩
  rw [hx] at ha
  cases ha

/-! ## Records -/

section Records

variable {fields : List Field} {name : String} (hole : RecordHole fields name)

theorem integer?_fill (v : Json) : integer? fields (hole.fill v) name = v.toInteger? :=
  hole.toInteger?_fill v

theorem integer?_fill_of_ne (v w : Json) {key : String} (hkey : name ≠ key) :
    integer? fields (hole.fill v) key = integer? fields (hole.fill w) key := by
  rw [integer?, integer?, hole.field?_fill_of_ne v w hkey]

/-- Values that stand for the same integer leave all integers of the record as they are. -/
theorem integer?_congr {v w : Json} (hvw : v.toInteger? = w.toInteger?) (key : String) :
    integer? fields (hole.fill v) key = integer? fields (hole.fill w) key := by
  by_cases hkey : name = key
  · rw [← hkey, integer?_fill, integer?_fill, hvw]
  · exact integer?_fill_of_ne hole v w hkey

theorem integer_congr {v w : Json} (hvw : v.toInteger? = w.toInteger?) (key : String) :
    integer fields (hole.fill v) key = integer fields (hole.fill w) key := by
  rw [integer, integer, integer?_congr hole hvw]

theorem integer?_object_of_ne (hole : ObjectHole name) (fields : List Field) (v w : Json)
    {key : String} (hkey : name ≠ key) :
    integer? fields (hole.fill v) key = integer? fields (hole.fill w) key :=
  integer?_fill_of_ne (hole.record fields) v w hkey

theorem integer?_object_congr (hole : ObjectHole name) (fields : List Field) {v w : Json}
    (hvw : v.toInteger? = w.toInteger?) (key : String) :
    integer? fields (hole.fill v) key = integer? fields (hole.fill w) key :=
  integer?_congr (hole.record fields) hvw key

end Records

theorem inset_readInsets (e : Edge) (j : Json) :
    e.inset (readInsets j) = (integer insetsFields j e.name : Binary64) := by
  cases e <;> rfl

/-- One side of insets is read from a number. -/
theorem readsNumber_insets (e : Edge) (hole : RecordHole insetsFields e.name) :
    ReadsNumber (SameWithout e.clear) fun v => readInsets (hole.fill v) := by
  constructor
  · intro v w
    refine Edge.clear_congr fun d hd => ?_
    have hname : e.name ≠ d.name := fun h => hd (Edge.name_injective h).symm
    rw [inset_readInsets, inset_readInsets, integer, integer, integer?_fill_of_ne hole v w hname]
  · intro v w hvw
    simp only [readInsets, integer_congr hole hvw]

/-- A size keeps its kind whatever its value. -/
theorem readsNumber_size (fallback : Size) (hole : RecordHole sizeFields "value") :
    ReadsNumber (SameWithout sizeKind) fun v => readSize fallback (hole.fill v) := by
  have hkind := fun v w => hole.stringField?_fill_of_ne v w (show "value" ≠ "type" by decide)
  constructor
  · intro v w
    simp only [SameWithout, readSize, hkind v w]
    split
    · rfl
    · split <;> split <;> rfl
    · rfl
  · intro v w hvw
    simp only [readSize, hkind v w, integer_congr hole hvw]

theorem readsNumber_textStyle (hole : RecordHole textStyleFields "size") :
    ReadsNumber (SameWithout fun s => { s with size := none }) fun v =>
      readTextStyle (hole.fill v) := by
  constructor
  · intro v w
    simp [SameWithout, readTextStyle, Json.stringField?, hole.field?_fill_of_ne v w]
  · intro v w hvw
    simp [readTextStyle, Json.stringField?, hole.field?_fill_of_ne v w, length?,
      integer?_congr hole hvw]

/-! ## Styles and views -/

section Styles

variable (d : StyleDefaults)

theorem readViewStyle_margin (hole : RecordHole viewStyleFields "margin") {x : Json}
    (hx : x.isNull = false) (y : Json) : readViewStyle d (hole.fill x) =
      { readViewStyle d (hole.fill y) with margin := readInsets x } := by
  simp [readViewStyle, length?, integer?, Json.stringField?, hole.field?_fill_of_not_null hx,
    hole.field?_fill_of_ne x y]

theorem readViewStyle_padding (hole : RecordHole viewStyleFields "padding") {x : Json}
    (hx : x.isNull = false) (y : Json) : readViewStyle d (hole.fill x) =
      { readViewStyle d (hole.fill y) with padding := readInsets x } := by
  simp [readViewStyle, length?, integer?, Json.stringField?, hole.field?_fill_of_not_null hx,
    hole.field?_fill_of_ne x y]

theorem readsNumber_borderWidth (hole : RecordHole viewStyleFields "borderWidth") :
    ReadsNumber (SameWithout fun s => { s with borderWidth := none }) fun v =>
      readViewStyle d (hole.fill v) := by
  constructor
  · intro v w
    simp [SameWithout, readViewStyle, length?, integer?, Json.stringField?,
      hole.field?_fill_of_ne v w]
  · intro v w hvw
    simp [readViewStyle, length?, integer?_congr hole hvw, Json.stringField?,
      hole.field?_fill_of_ne v w]

theorem readsNumber_radius (hole : RecordHole viewStyleFields "radius") :
    ReadsNumber (SameWithout fun s => { s with radius := none }) fun v =>
      readViewStyle d (hole.fill v) := by
  constructor
  · intro v w
    simp [SameWithout, readViewStyle, length?, integer?, Json.stringField?,
      hole.field?_fill_of_ne v w]
  · intro v w hvw
    simp [readViewStyle, length?, integer?_congr hole hvw, Json.stringField?,
      hole.field?_fill_of_ne v w]

theorem readView_style (hole : ObjectHole "viewStyle") {x : Json} (hx : x.isNull = false)
    (y : Json) : readView d (hole.fill x) =
      { readView d (hole.fill y) with style := readViewStyle d x } := by
  simp [readView, hole.field?_fill_of_not_null _ hx, hole.field?_fill_of_ne _ x y]

theorem readView_width (hole : ObjectHole "width") {x : Json} (hx : x.isNull = false) (y : Json) :
    readView d (hole.fill x) =
      { readView d (hole.fill y) with width := readSize View.plain.width x } := by
  simp [readView, hole.field?_fill_of_not_null _ hx, hole.field?_fill_of_ne _ x y]

theorem readView_height (hole : ObjectHole "height") {x : Json} (hx : x.isNull = false) (y : Json) :
    readView d (hole.fill x) =
      { readView d (hole.fill y) with height := readSize View.plain.height x } := by
  simp [readView, hole.field?_fill_of_not_null _ hx, hole.field?_fill_of_ne _ x y]

theorem readView_fill_of_ne {name : String} (hole : ObjectHole name)
    (hname : name ∉ viewFields.map (·.name)) (x y : Json) :
    readView d (hole.fill x) = readView d (hole.fill y) := by
  have hne : name ≠ "action" ∧ name ≠ "viewStyle" ∧ name ≠ "width" ∧ name ≠ "height" := by
    simpa [viewFields, Json.optionalRecord] using hname
  simp [readView, hole.field?_fill_of_ne _ x y, hne]

/-- The styles with one and another value for a number differ in what it decides. -/
theorem readsNumber_style (n : ItemNumber) (hkey : n.key = "viewStyle") (inner : WayHole n.way) :
    ReadsNumber (SameWithout n.styleWithout) fun v => readViewStyle d (inner.fill v) := by
  cases n with
  | borderWidth =>
    obtain _ | ⟨record, _ | _⟩ := inner
    exact readsNumber_borderWidth d record
  | radius =>
    obtain _ | ⟨record, _ | _⟩ := inner
    exact readsNumber_radius d record
  | margin e =>
    obtain _ | ⟨record, _ | ⟨insets, _ | _⟩⟩ := inner
    refine ((readsNumber_insets e insets).map
      (fun margin => ({ readViewStyle d (record.fill .null) with margin } : ViewStyle))
      fun i j (hij : e.clear i = e.clear j) => ?_).of_eq
      fun v => readViewStyle_margin d record (insets.isNull_fill v) .null
    simp only [SameWithout, ItemNumber.styleWithout, hij]
  | padding e =>
    obtain _ | ⟨record, _ | ⟨insets, _ | _⟩⟩ := inner
    refine ((readsNumber_insets e insets).map
      (fun padding => ({ readViewStyle d (record.fill .null) with padding } : ViewStyle))
      fun i j (hij : e.clear i = e.clear j) => ?_).of_eq
      fun v => readViewStyle_padding d record (insets.isNull_fill v) .null
    simp only [SameWithout, ItemNumber.styleWithout, hij]
  | _ => exact absurd hkey (by decide)

theorem readsNumber_viewOfStyle (n : ItemNumber) (hkey : n.key = "viewStyle")
    (hole : ObjectHole "viewStyle") (inner : WayHole n.way) :
    ReadsNumber (SameWithout fun view => { view with style := n.styleWithout view.style }) fun v =>
      readView d (hole.fill (inner.fill v)) := by
  have hinner : ∀ v, (inner.fill v).isNull = false := by
    intro v
    cases n <;> first | exact inner.isNull_fill v | exact absurd hkey (by decide)
  refine ((readsNumber_style d n hkey inner).map
    (fun style => { readView d (hole.fill .null) with style })
    fun x y (hxy : n.styleWithout x = n.styleWithout y) => ?_).of_eq
    fun v => readView_style d hole (hinner v) .null
  simp only [SameWithout, hxy]

/-- The views with one and another value for a number differ in what it decides. -/
theorem readsNumber_view (n : ItemNumber) (hole : ObjectHole n.key) (inner : WayHole n.way) :
    ReadsNumber (SameWithout n.viewWithout) fun v => readView d (hole.fill (inner.fill v)) := by
  cases n with
  | width =>
    obtain _ | ⟨record, _ | _⟩ := inner
    refine ((readsNumber_size View.plain.width record).map
      (fun width => ({ readView d (hole.fill .null) with width } : View))
      fun x y (hxy : sizeKind x = sizeKind y) => ?_).of_eq
      fun v => readView_width d hole (record.isNull_fill v) .null
    simp only [SameWithout, ItemNumber.viewWithout, hxy]
  | height =>
    obtain _ | ⟨record, _ | _⟩ := inner
    refine ((readsNumber_size View.plain.height record).map
      (fun height => ({ readView d (hole.fill .null) with height } : View))
      fun x y (hxy : sizeKind x = sizeKind y) => ?_).of_eq
      fun v => readView_height d hole (record.isNull_fill v) .null
    simp only [SameWithout, ItemNumber.viewWithout, hxy]
  | borderWidth => exact readsNumber_viewOfStyle d .borderWidth rfl hole inner
  | radius => exact readsNumber_viewOfStyle d .radius rfl hole inner
  | margin e => exact readsNumber_viewOfStyle d (.margin e) rfl hole inner
  | padding e => exact readsNumber_viewOfStyle d (.padding e) rfl hole inner
  | maxLines | textSize | pixelWidth | pixelHeight | spacing =>
    exact .const _ fun v w => readView_fill_of_ne d hole (by decide) _ _

end Styles

/-! ## Texts, images and spacings -/

section Contents

variable (d : StyleDefaults) (lines : Nat)

theorem readText_fill_of_ne {name : String} (hole : ObjectHole name)
    (hname : name ∉ textFields.map (·.name)) (view : View) (x y : Json) :
    readText view lines (hole.fill x) = readText view lines (hole.fill y) := by
  have hne : name ≠ "text" ∧ name ≠ "maxTextLines" ∧ name ≠ "textStyle" ∧ name ≠ "align" := by
    simpa [textFields, Json.anyField, Json.optionalRecord] using hname
  simp [readText, integer?, Json.stringField?, alignOf, hole.field?_fill_of_ne _ x y, hne]

theorem readText_style (hole : ObjectHole "textStyle") {x : Json} (hx : x.isNull = false)
    (view : View) (y : Json) : readText view lines (hole.fill x) =
      { readText view lines (hole.fill y) with style := readTextStyle x } := by
  simp [readText, integer?, Json.stringField?, alignOf, hole.field?_fill_of_not_null _ hx,
    hole.field?_fill_of_ne _ x y]

theorem readsNumber_lines (hole : ObjectHole "maxTextLines") :
    ReadsNumber (SameWithout fun t : TextItem => { t with maxLines := 0 }) fun v =>
      readText (readView d (hole.fill v)) lines (hole.fill v) := by
  have hview := readView_fill_of_ne d hole (by decide)
  constructor
  · intro v w
    simp [SameWithout, readText, hview v w, Json.stringField?, alignOf,
      hole.field?_fill_of_ne _ v w]
  · intro v w hvw
    simp [readText, hview v w, Json.stringField?, alignOf, hole.field?_fill_of_ne _ v w,
      integer?_object_congr hole _ hvw]

theorem readsNumber_textOfStyle (hole : ObjectHole "textStyle")
    (record : RecordHole textStyleFields "size") :
    ReadsNumber (SameWithout fun t : TextItem => { t with style := { t.style with size := none } })
      fun v =>
        readText (readView d (hole.fill (record.fill v))) lines (hole.fill (record.fill v)) := by
  let blank := readText (readView d (hole.fill .null)) lines (hole.fill .null)
  refine ((readsNumber_textStyle record).map (fun style => ({ blank with style } : TextItem))
    fun x y (hxy : ({ x with size := none } : TextStyle) = { y with size := none }) => ?_).of_eq
    fun v => ?_
  · simp only [SameWithout, hxy]
  · rw [readView_fill_of_ne d hole (by decide) _ .null]
    exact readText_style lines hole (record.isNull_fill v) _ .null

/-- The texts with one and another value for a number differ in what it decides. -/
theorem readsNumber_text (n : ItemNumber) (hole : ObjectHole n.key) (inner : WayHole n.way) :
    ReadsNumber (SameWithout n.textWithout) fun v =>
      readText (readView d (hole.fill (inner.fill v))) lines (hole.fill (inner.fill v)) := by
  have hview := readsNumber_view d n hole inner
  have hother : n.key ∉ textFields.map (·.name) →
      ReadsNumber (SameWithout fun t : TextItem => { t with view := n.viewWithout t.view }) fun v =>
        readText (readView d (hole.fill (inner.fill v))) lines (hole.fill (inner.fill v)) := by
    intro hname
    refine (hview.map (readText · lines (hole.fill .null))
      fun x y (hxy : n.viewWithout x = n.viewWithout y) => ?_).of_eq
      fun v => readText_fill_of_ne lines hole hname _ _ _
    simp only [SameWithout, readText, hxy]
  cases n with
  | maxLines =>
    obtain _ | _ := inner
    exact readsNumber_lines d lines hole
  | textSize =>
    obtain _ | ⟨record, _ | _⟩ := inner
    exact readsNumber_textOfStyle d lines hole record
  | margin | padding => exact hother (show "viewStyle" ∉ _ by decide)
  | _ => exact hother (by decide)

theorem readImage_fill_of_ne {name : String} (hole : ObjectHole name)
    (hname : name ∉ imageFields.map (·.name)) (view : View) (x y : Json) :
    readImage view (hole.fill x) = readImage view (hole.fill y) := by
  have hne : name ≠ "imageUrl" ∧ name ≠ "imageStyle" ∧ name ≠ "metaData" := by
    simpa [imageFields, Json.optionalRecord] using hname
  simp [readImage, Json.stringField?, hole.field?_fill_of_ne _ x y, hne]

theorem readImage_pixels (hole : ObjectHole "metaData") {x : Json} (hx : x.isNull = false)
    (view : View) (y : Json) : readImage view (hole.fill x) =
      { readImage view (hole.fill y) with pixels := readPixels x } := by
  simp [readImage, Json.stringField?, hole.field?_fill_of_not_null _ hx,
    hole.field?_fill_of_ne _ x y]

theorem eq_of_mem_readPixels {j : Json} {a : PixelSize} (h : a ∈ readPixels j) :
    a = ⟨(integer metaDataFields j "pixelWidth").toNat,
      (integer metaDataFields j "pixelHeight").toNat⟩ := by
  simp only [readPixels, Option.mem_def] at h
  split at h
  · exact (Option.some.inj h).symm
  · cases h

/-- A side of a pixel size does not depend on the number for the other one. -/
theorem readsNumber_pixels {name other : String} (hole : RecordHole metaDataFields name)
    (hname : name ≠ other) {side : PixelSize → Nat}
    (hside : ∀ j a, a ∈ readPixels j → side a = (integer metaDataFields j other).toNat) :
    ReadsNumber (AgreeIn side) fun v => readPixels (hole.fill v) := by
  constructor
  · intro v w a ha b hb
    rw [hside _ a ha, hside _ b hb, integer, integer, integer?_fill_of_ne hole v w hname]
  · intro v w hvw
    simp only [readPixels, integer_congr hole hvw]

theorem readsNumber_imageOfPixels (n : ItemNumber) {name : String} (hole : ObjectHole "metaData")
    (record : RecordHole metaDataFields name) {side : PixelSize → Nat}
    (hpixels : ReadsNumber (AgreeIn side) fun v => readPixels (record.fill v))
    (hwithout : ∀ i, n.imageWithout i = { i with pixels := none })
    (hother : n.otherSide? = some side) :
    ReadsNumber n.ImagesAlike fun v =>
      readImage (readView d (hole.fill (record.fill v))) (hole.fill (record.fill v)) := by
  let blank := readImage (readView d (hole.fill .null)) (hole.fill .null)
  refine (hpixels.map (fun pixels => ({ blank with pixels } : ImageItem))
    fun p q hpq => ?_).of_eq fun v => ?_
  · refine ⟨by rw [hwithout, hwithout], fun other hside => ?_⟩
    cases hother.symm.trans hside
    exact hpq
  · rw [readView_fill_of_ne d hole (by decide) _ .null]
    exact readImage_pixels hole (record.isNull_fill v) _ .null

/-- The images with one and another value for a number differ in what it decides. -/
theorem readsNumber_image (n : ItemNumber) (hole : ObjectHole n.key) (inner : WayHole n.way) :
    ReadsNumber n.ImagesAlike fun v =>
      readImage (readView d (hole.fill (inner.fill v))) (hole.fill (inner.fill v)) := by
  have hview := readsNumber_view d n hole inner
  have hother : n.key ∉ imageFields.map (·.name) → n.otherSide? = none →
      (∀ i, n.imageWithout i = { i with view := n.viewWithout i.view }) →
      ReadsNumber n.ImagesAlike fun v =>
        readImage (readView d (hole.fill (inner.fill v))) (hole.fill (inner.fill v)) := by
    intro hname hside hwithout
    refine (hview.map (readImage · (hole.fill .null))
      fun x y (hxy : n.viewWithout x = n.viewWithout y) => ⟨?_, fun side h => ?_⟩).of_eq
      fun v => readImage_fill_of_ne hole hname _ _ _
    · simp only [hwithout, readImage, hxy]
    · cases hside.symm.trans h
  cases n with
  | pixelWidth =>
    obtain _ | ⟨record, _ | _⟩ := inner
    exact readsNumber_imageOfPixels d .pixelWidth hole record
      (readsNumber_pixels record (by decide) fun _ _ h =>
        congrArg PixelSize.height (eq_of_mem_readPixels h)) (fun _ => rfl) rfl
  | pixelHeight =>
    obtain _ | ⟨record, _ | _⟩ := inner
    exact readsNumber_imageOfPixels d .pixelHeight hole record
      (readsNumber_pixels record (by decide) fun _ _ h =>
        congrArg PixelSize.width (eq_of_mem_readPixels h)) (fun _ => rfl) rfl
  | margin | padding => exact hother (show "viewStyle" ∉ _ by decide) rfl fun _ => rfl
  | _ => exact hother (by decide) rfl fun _ => rfl

/-- The spacings with one and another value for a number differ at most if it is the spacing. -/
theorem readsNumber_spacing (n : ItemNumber) (hole : ObjectHole n.key) (inner : WayHole n.way) :
    ReadsNumber (SameWithout n.spacingWithout) fun v =>
      (length? carouselFields (hole.fill (inner.fill v)) "spacing").getD carouselSpacing := by
  have hother : n.key ≠ "spacing" → ReadsNumber (SameWithout n.spacingWithout) fun v =>
      (length? carouselFields (hole.fill (inner.fill v)) "spacing").getD carouselSpacing := by
    intro hname
    refine .const _ fun v w => ?_
    simp only [length?, integer?_object_of_ne hole _ (inner.fill v) (inner.fill w) hname]
  cases n with
  | spacing =>
    obtain _ | _ := inner
    refine ⟨fun _ _ => rfl, fun v w hvw => ?_⟩
    simp only [WayHole.fill, length?, integer?_object_congr hole _ hvw]
  | margin | padding => exact hother (show "viewStyle" ≠ _ by decide)
  | _ => exact hother (by decide)

end Contents

/-! ## Items -/

section Items

variable {name : String} (hole : ObjectHole name)

theorem itemTag_fill (hname : name ≠ "type") (path : String) (v w : Json) :
    itemTag (hole.fill v) path = itemTag (hole.fill w) path := by
  have htag := hole.get?_fill_of_ne v w hname
  simp only [ObjectHole.fill, Json.get?] at htag
  simp only [ObjectHole.fill, itemTag, htag]

theorem itemTag_eq (hname : name ≠ "type") {tag : String}
    (htag : (hole.fill .null).get? "type" = some (.string tag)) (path : String) (v : Json) :
    itemTag (hole.fill v) path = .ok tag := by
  rw [itemTag_fill hole hname path v .null]
  simp only [ObjectHole.fill, Json.get?] at htag
  simp only [ObjectHole.fill, itemTag, htag, Option.bind_some, Json.asString?]

theorem requireField_fill {field : String} (hname : name ≠ field) (path : String) (v w : Json) :
    requireField (hole.fill v) field path = requireField (hole.fill w) field path := by
  rw [requireField, requireField, hole.get?_fill_of_ne v w hname]

theorem checked_fill {fields : List Field} {v w : Json} (h : ChecksAlike fields name v w)
    (path : String) : checked path fields (hole.fill v) = checked path fields (hole.fill w) := by
  rw [checked, checked, hole.checkMembers_fill h]

theorem elements_fill_array (fields : List Field) (xs : List Json) :
    elements fields (hole.fill (.array xs)) name = xs := by
  rw [elements, hole.field?_fill_of_not_null fields rfl]
  rfl

theorem elements_fill {field : String} (hname : name ≠ field) (fields : List Field) (v w : Json) :
    elements fields (hole.fill v) field = elements fields (hole.fill w) field := by
  rw [elements, elements, hole.field?_fill_of_ne fields v w hname]

end Items

theorem readDirection_fill {name : String} (hole : ObjectHole name) (hname : name ≠ "layout")
    (v w : Json) : readDirection (hole.fill v) = readDirection (hole.fill w) := by
  simp only [readDirection, Json.stringField?, hole.field?_fill_of_ne boxFields v w hname]

theorem alignOf_fill {name : String} (hole : ObjectHole name) (hname : name ≠ "align")
    (fields : List Field) (v w : Json) :
    alignOf fields (hole.fill v) = alignOf fields (hole.fill w) := by
  simp only [alignOf, hole.field?_fill_of_ne fields v w hname]

/-- The records that an item's object is held against. -/
def itemRecords : List (List Field) :=
  [viewFields, boxFields, textFields, imageFields, carouselFields]

namespace ItemNumber

/-- A number is part of one record at most. -/
theorem eq_fields_or_find?_eq_none (n : ItemNumber) {fields : List Field}
    (h : fields ∈ itemRecords) :
    fields = n.fields ∨ fields.find? (·.name = n.key) = none := by
  simp only [itemRecords, List.mem_cons, List.not_mem_nil, or_false] at h
  rcases h with rfl | rfl | rfl | rfl | rfl <;>
    cases n <;> first | exact .inl rfl | exact .inr rfl

/-- No record of an item tells its numbers apart. -/
theorem checksAlike (n : ItemNumber) (inner : WayHole n.way) {fields : List Field}
    (h : fields ∈ itemRecords) (v w : Json) :
    ChecksAlike fields n.key (inner.fill v) (inner.fill w) := by
  rcases n.eq_fields_or_find?_eq_none h with rfl | hnone
  · exact n.isLenient.checksAlike inner v w
  · exact .unknown hnone _ _

theorem key_not_mem (n : ItemNumber) :
    n.key ∉ ["type", "text", "imageUrl", "items", "layout", "align"] := by
  cases n <;> exact of_decide_eq_true rfl

end ItemNumber

section Numbers

variable (n : ItemNumber) (hole : ObjectHole n.key) (inner : WayHole n.way)

theorem ItemNumber.key_ne {key : String}
    (h : key ∈ ["type", "text", "imageUrl", "items", "layout", "align"]) : n.key ≠ key :=
  fun he => n.key_not_mem (he ▸ h)

theorem readsNumber_box (items : List Item) : ReadsNumber n.Alike fun v =>
    .box (readView plainDefaults (hole.fill (inner.fill v)))
      (readDirection (hole.fill (inner.fill v))) items
      (alignOf boxFields (hole.fill (inner.fill v))) := by
  refine ((readsNumber_view plainDefaults n hole inner).map
    (fun view => .box view (readDirection (hole.fill .null)) items
      (alignOf boxFields (hole.fill .null)))
    fun x y (hxy : n.viewWithout x = n.viewWithout y) => ?_).of_eq fun v => ?_
  · exact ItemNumber.alike_of_pixels?_eq_none (by simp only [ItemNumber.without, hxy]) rfl
  · rw [readDirection_fill hole (n.key_ne (by decide)) _ .null,
      alignOf_fill hole (n.key_ne (by decide)) _ _ .null]

theorem readsNumber_carousel (pages : List Template) : ReadsNumber n.Alike fun v =>
    .carousel (readView plainDefaults (hole.fill (inner.fill v))) pages
      ((length? carouselFields (hole.fill (inner.fill v)) "spacing").getD carouselSpacing) := by
  refine (readsNumber_view plainDefaults n hole inner).map₂ (readsNumber_spacing n hole inner)
    (fun view spacing => Item.carousel view pages spacing)
    fun x y a b (hxy : n.viewWithout x = n.viewWithout y)
      (hab : n.spacingWithout a = n.spacingWithout b) => ?_
  exact ItemNumber.alike_of_pixels?_eq_none (by simp only [ItemNumber.without, hxy, hab]) rfl

theorem checked_number (path : String) {fields : List Field} (hfields : fields ∈ itemRecords)
    (v w : Json) : checked path fields (hole.fill (inner.fill v)) =
      checked path fields (hole.fill (inner.fill w)) :=
  checked_fill hole (n.checksAlike inner hfields v w) path

theorem readsLeniently_text (path : String) (isButton : Bool) (d : StyleDefaults) (lines : Nat) :
    ReadsLeniently n.Alike fun v => do
      requireField (hole.fill (inner.fill v)) "text" path
      checked path textFields (hole.fill (inner.fill v))
      return .text isButton
        (readText (readView d (hole.fill (inner.fill v))) lines (hole.fill (inner.fill v))) := by
  refine .after (fun v w => requireField_fill hole (n.key_ne (by decide)) path _ _) fun _ => ?_
  refine .after (checked_number n hole inner path (by simp [itemRecords])) fun _ => ?_
  refine ((readsNumber_text d lines n hole inner).map (Item.text isButton)
    fun x y (hxy : n.textWithout x = n.textWithout y) => ?_).ok
  exact ItemNumber.alike_of_pixels?_eq_none (by simp only [ItemNumber.without, hxy]) rfl

theorem readsLeniently_image (path : String) (isButton : Bool) (d : StyleDefaults) :
    ReadsLeniently n.Alike fun v => do
      requireField (hole.fill (inner.fill v)) "imageUrl" path
      checked path imageFields (hole.fill (inner.fill v))
      return .image isButton
        (readImage (readView d (hole.fill (inner.fill v))) (hole.fill (inner.fill v))) := by
  refine .after (fun v w => requireField_fill hole (n.key_ne (by decide)) path _ _) fun _ => ?_
  refine .after (checked_number n hole inner path (by simp [itemRecords])) fun _ => ?_
  refine ((readsNumber_image d n hole inner).map (Item.image isButton)
    fun x y hxy => ⟨?_, hxy.2⟩).ok
  simp only [ItemNumber.without, hxy.1]

/-- An item is read leniently at each of its numbers. -/
theorem readsLeniently_number (path : String) :
    ReadsLeniently n.Alike fun v => readItem (hole.fill (inner.fill v)) path := by
  have hchecked := fun fields (h : fields ∈ itemRecords) => checked_number n hole inner path h
  have helements : ∀ fields v w, elements fields (hole.fill (inner.fill v)) "items" =
      elements fields (hole.fill (inner.fill w)) "items" :=
    fun fields v w => elements_fill hole (n.key_ne (by decide)) fields _ _
  simp only [readItem]
  refine .after (fun v w => itemTag_fill hole (n.key_ne (by decide)) path _ _) fun tag => ?_
  refine .after (hchecked viewFields (by simp [itemRecords])) fun _ => ?_
  by_cases hknown : tag ∈ itemKinds
  · simp only [itemKinds, List.mem_cons, List.not_mem_nil, or_false] at hknown
    rcases hknown with rfl | rfl | rfl | rfl | rfl | rfl
    · refine .after (hchecked boxFields (by simp [itemRecords])) fun _ => ?_
      refine .after (fun v w => by rw [helements boxFields v w]) fun items => ?_
      exact (readsNumber_box n hole inner items).ok
    · exact readsLeniently_text n hole inner path false plainDefaults 0
    · exact readsLeniently_text n hole inner path true buttonDefaults buttonLines
    · exact readsLeniently_image n hole inner path false plainDefaults
    · exact readsLeniently_image n hole inner path true plainDefaults
    · refine .after (hchecked carouselFields (by simp [itemRecords])) fun _ => ?_
      refine .after (fun v w => by rw [helements carouselFields v w]) fun pages => ?_
      exact (readsNumber_carousel n hole inner pages).ok
  · refine .inl ⟨.unknownItemType tag path, fun v => ?_⟩
    simp only [itemKinds, List.mem_cons, List.not_mem_nil, or_false, not_or] at hknown
    obtain ⟨hbox, htext, htextButton, himage, himageButton, hcarousel⟩ := hknown
    split <;> first | contradiction | rfl

end Numbers

/-! ## Lists of elements -/

section Elements

variable {α : Type}

/-- Lists that are the same but for one element, and alike there. -/
def AlikeAt (alike : α → α → Prop) : Nat → List α → List α → Prop
  | 0, x :: xs, y :: ys => alike x y ∧ xs = ys
  | i + 1, x :: xs, y :: ys => x = y ∧ AlikeAt alike i xs ys
  | _, _, _ => False

/-- An element that is read leniently among others makes for a list that is. -/
theorem ReadsLeniently.each {R : α → α → Prop} {read : Json → String → Except TemplateFault α}
    {put : Json → Json} (h : ∀ path, ReadsLeniently R fun v => read (put v) path)
    (before after : List Json) (parent : String) (index : Nat) :
    ReadsLeniently (AlikeAt R before.length) fun v =>
      readEach read parent (before ++ put v :: after) index := by
  induction before generalizing index with
  | nil =>
    simp only [List.nil_append, readEach]
    refine (h _).bind fun value hvalue => .after (fun _ _ => rfl) fun as => ?_
    exact (hvalue.map (· :: as) fun x y hxy => ⟨hxy, rfl⟩).ok
  | cons j before ih =>
    simp only [List.cons_append, readEach]
    refine .after (fun _ _ => rfl) fun a => (ih (index + 1)).bind fun value hvalue => ?_
    exact (hvalue.map (a :: ·) fun xs ys hxs => ⟨rfl, hxs⟩).ok

end Elements

/-! ## Templates -/

mutual

/-- A template document but for one of the numbers in it: the version, or a number of an item. -/
inductive TemplateHole where
  | version (document : ObjectHole "version")
  | item (document : ObjectHole "body") (body : RecordHole bodyFields "items")
      (before : List Json) (item : ItemHole) (after : List Json)

/-- An item's object but for one of the numbers in it: one of its own, or one of an item in a box,
or one of a page of a carousel. -/
inductive ItemHole where
  | number (n : ItemNumber) (object : ObjectHole n.key) (records : WayHole n.way)
  | child (box : ObjectHole "items") (tag : (box.fill .null).get? "type" = some (.string "box"))
      (before : List Json) (item : ItemHole) (after : List Json)
  | page (carousel : ObjectHole "items")
      (tag : (carousel.fill .null).get? "type" = some (.string "carouselView"))
      (before : List Json) (page : TemplateHole) (after : List Json)

end

mutual

/-- The document with a value for the number. -/
def TemplateHole.fill : TemplateHole → Json → Json
  | .version document, v => document.fill v
  | .item document body before item after, v =>
    document.fill (body.fill (.array (before ++ item.fill v :: after)))

/-- The item's object with a value for the number. -/
def ItemHole.fill : ItemHole → Json → Json
  | .number _ object records, v => object.fill (records.fill v)
  | .child box _ before item after, v => box.fill (.array (before ++ item.fill v :: after))
  | .page carousel _ before page after, v =>
    carousel.fill (.array (before ++ page.fill v :: after))

end

mutual

/-- Templates that differ in no more than what the number decides. -/
def TemplateHole.Alike : TemplateHole → Template → Template → Prop
  | .version _, t, u => t.body = u.body
  | .item _ _ before item _, t, u => t.version = u.version ∧ ∃ xs ys,
    t.body = some xs ∧ u.body = some ys ∧ AlikeAt item.Alike before.length xs ys

/-- Items that differ in no more than what the number decides. -/
def ItemHole.Alike : ItemHole → Item → Item → Prop
  | .number n _ _, x, y => n.Alike x y
  | .child _ _ before item _, x, y => ∃ view direction xs ys align,
    x = .box view direction xs align ∧ y = .box view direction ys align ∧
      AlikeAt item.Alike before.length xs ys
  | .page _ _ before page _, x, y => ∃ view ts us spacing,
    x = .carousel view ts spacing ∧ y = .carousel view us spacing ∧
      AlikeAt page.Alike before.length ts us

end

theorem readTemplate_fill {name : String} (document : ObjectHole name) (path : String) (v : Json) :
    readTemplate (document.fill v) path = (do
      checked path templateFields (document.fill v)
      match Json.field? templateFields (document.fill v) "body" with
      | none => return ⟨integer templateFields (document.fill v) "version", none⟩
      | some body =>
        let items ← readItems (bodyElements body) (path ++ ".body") 0
        return ⟨integer templateFields (document.fill v) "version", some items⟩) := by
  rw [ObjectHole.fill, readTemplate]
  split <;> rename_i h <;> simp only [h]

/-- A template is read leniently at its version. -/
theorem readsLeniently_version (document : ObjectHole "version") (path : String) :
    ReadsLeniently (TemplateHole.version document).Alike fun v =>
      readTemplate (document.fill v) path := by
  have hnumber : ∀ body : Option (List Item),
      ReadsNumber (TemplateHole.version document).Alike fun v =>
        ⟨integer templateFields (document.fill v) "version", body⟩ := by
    intro body
    refine ⟨fun _ _ => by rw [TemplateHole.Alike], fun v w hvw => ?_⟩
    simp only [integer, integer?_object_congr document _ hvw]
  have hbody := fun v => document.field?_fill_of_ne templateFields v .null
    (show "version" ≠ "body" by decide)
  simp only [readTemplate_fill, hbody]
  refine .after (fun v w => checked_fill document (.any rfl v w) path) fun _ => ?_
  cases Json.field? templateFields (document.fill .null) "body" with
  | none => exact (hnumber none).ok
  | some body => exact .after (fun _ _ => rfl) fun items => (hnumber (some items)).ok

theorem readItem_box {j : Json} {path : String} (h : itemTag j path = .ok "box") :
    readItem j path = (do
      checked path viewFields j
      checked path boxFields j
      let items ← readItems (elements boxFields j "items") path 0
      return .box (readView plainDefaults j) (readDirection j) items (alignOf boxFields j)) := by
  rw [readItem, h]
  rfl

theorem readItem_carousel {j : Json} {path : String} (h : itemTag j path = .ok "carouselView") :
    readItem j path = (do
      checked path viewFields j
      checked path carouselFields j
      let pages ← readPages (elements carouselFields j "items") path 0
      return .carousel (readView plainDefaults j) pages
        ((length? carouselFields j "spacing").getD carouselSpacing)) := by
  rw [readItem, h]
  rfl

mutual

/-- A template is read leniently at each of its numbers. -/
theorem TemplateHole.readsLeniently : ∀ (h : TemplateHole) (path : String),
    ReadsLeniently h.Alike fun v => readTemplate (h.fill v) path
  | .version document, path => readsLeniently_version document path
  | .item document body before item after, path => by
    have helements : ∀ v, bodyElements (body.fill (.array (before ++ item.fill v :: after))) =
        before ++ item.fill v :: after := by
      intro v
      rw [bodyElements, elements, body.field?_fill_of_not_null rfl]
      rfl
    have hchecks : ∀ v w, ChecksAlike templateFields "body"
        (body.fill (.array (before ++ item.fill v :: after)))
        (body.fill (.array (before ++ item.fill w :: after))) :=
      fun v w => .record rfl body (.array rfl _ _)
    simp only [TemplateHole.fill, readTemplate_fill, document.field?_fill_of_not_null _
      (body.isNull_fill _), helements, readItems_eq]
    refine .after (fun v w => checked_fill document (hchecks v w) path) fun _ => ?_
    refine (ReadsLeniently.each (ItemHole.readsLeniently item) before after _ 0).bind
      fun items hitems => ?_
    let version := integer templateFields (document.fill .null) "version"
    refine ((hitems.map (fun items => (⟨version, some items⟩ : Template))
      fun xs ys hxs => ?_).of_eq fun v => ?_).ok
    · rw [TemplateHole.Alike]
      exact ⟨rfl, xs, ys, rfl, rfl, hxs⟩
    · rw [integer, integer?_object_of_ne document templateFields _ .null (by decide)]
      rfl

/-- An item is read leniently at each of its numbers, those of items and pages in it included. -/
theorem ItemHole.readsLeniently : ∀ (h : ItemHole) (path : String),
    ReadsLeniently h.Alike fun v => readItem (h.fill v) path
  | .number n object records, path => readsLeniently_number n object records path
  | .child box tag before item after, path => by
    have hread := fun v => readItem_box (itemTag_eq box (by decide) tag path v)
    simp only [ItemHole.fill, hread, elements_fill_array, readItems_eq]
    refine .after (fun v w => checked_fill box (.unknown rfl _ _) path) fun _ => ?_
    refine .after (fun v w => checked_fill box (.array rfl _ _) path) fun _ => ?_
    refine (ReadsLeniently.each (ItemHole.readsLeniently item) before after path 0).bind
      fun items hitems => ?_
    refine ((hitems.map (fun items => Item.box (readView plainDefaults (box.fill .null))
      (readDirection (box.fill .null)) items (alignOf boxFields (box.fill .null)))
      fun xs ys hxs => ?_).of_eq fun v => ?_).ok
    · rw [ItemHole.Alike]
      exact ⟨_, _, xs, ys, _, rfl, rfl, hxs⟩
    · rw [readView_fill_of_ne _ box (by decide) _ .null, readDirection_fill box (by decide) _ .null,
        alignOf_fill box (by decide) _ _ .null]
  | .page carousel tag before page after, path => by
    have hread := fun v => readItem_carousel (itemTag_eq carousel (by decide) tag path v)
    simp only [ItemHole.fill, hread, elements_fill_array, readPages_eq]
    refine .after (fun v w => checked_fill carousel (.unknown rfl _ _) path) fun _ => ?_
    refine .after (fun v w => checked_fill carousel (.array rfl _ _) path) fun _ => ?_
    refine (ReadsLeniently.each (TemplateHole.readsLeniently page) before after path 0).bind
      fun pages hpages => ?_
    let spacing := (length? carouselFields (carousel.fill .null) "spacing").getD carouselSpacing
    refine ((hpages.map (fun pages => Item.carousel (readView plainDefaults (carousel.fill .null))
      pages spacing) fun ts us hts => ?_).of_eq fun v => ?_).ok
    · rw [ItemHole.Alike]
      exact ⟨_, ts, us, _, rfl, rfl, hts⟩
    · rw [readView_fill_of_ne _ carousel (by decide) _ .null, length?,
        integer?_object_of_ne carousel carouselFields _ .null (by decide)]
      rfl

end

end TemplateReader

/-- Whatever stands where a document has a number, the document has the same fault, or it is a
template that differs in no more than what the number decides. It is the same template for values
that stand for the same integer, as a number and its text do. -/
theorem Template.ofJson_lenient (h : TemplateReader.TemplateHole) :
    ((∃ e, ∀ v, Template.ofJson (h.fill v) = .error e) ∨
      ∃ t : Json → Template, (∀ v, Template.ofJson (h.fill v) = .ok (t v)) ∧
        ∀ v w, h.Alike (t v) (t w)) ∧
    (∀ v w, v.toInteger? = w.toInteger? →
      Template.ofJson (h.fill v) = Template.ofJson (h.fill w)) ∧
    ∀ n : JsonNumber, n.IsHeld → Template.ofJson (h.fill (.string (Json.number n).toText)) =
      Template.ofJson (h.fill (.number n)) := by
  have hcongr : ∀ v w, v.toInteger? = w.toInteger? →
      Template.ofJson (h.fill v) = Template.ofJson (h.fill w) := by
    intro v w hvw
    obtain ⟨e, he⟩ | ⟨t, ht, hnumber⟩ := h.readsLeniently "template"
    · exact (he v).trans (he w).symm
    · exact (ht v).trans ((congrArg _ (hnumber.congr v w hvw)).trans (ht w).symm)
  refine ⟨?_, hcongr, fun n hn => hcongr _ _ (Json.toInteger?_toText hn)⟩
  obtain ⟨e, he⟩ | ⟨t, ht, hnumber⟩ := h.readsLeniently "template"
  · exact .inl ⟨e, he⟩
  · exact .inr ⟨t, ht, hnumber.alike⟩

/-- An image with a pixel height, and a hole where its pixel width belongs. -/
theorem Template.ofJson_lenient_of_pixel_width :
    let image : TemplateReader.ItemHole := .number .pixelWidth
      ⟨[("type", .string "image"), ("imageUrl", .string "a.png")], [], by decide⟩
      (.through (.object [] [("pixelHeight", .number (.integer 5))] (by decide)) .here)
    let h : TemplateReader.TemplateHole :=
      .item ⟨[("version", .number (.integer 1))], [], by decide⟩ (.object [] [] (by decide)) []
        image []
    (JsonNumber.integer 4).IsHeld ∧
      Template.ofJson (h.fill (.string (Json.number (.integer 4)).toText)) =
        Template.ofJson (h.fill (.number (.integer 4))) ∧
      Json.toInteger? (.string "4.9") = Json.toInteger? (.number (.integer 4)) ∧
      Template.ofJson (h.fill (.string "4.9")) = Template.ofJson (h.fill (.number (.integer 4))) ∧
      ∃ i j : ImageItem, i.pixels = some ⟨4, 5⟩ ∧ j.pixels = some ⟨9, 5⟩ ∧
        Template.ofJson (h.fill (.number (.integer 4))) = .ok ⟨1, some [.image false i]⟩ ∧
        Template.ofJson (h.fill (.string "9")) = .ok ⟨1, some [.image false j]⟩ ∧
        h.Alike ⟨1, some [.image false i]⟩ ⟨1, some [.image false j]⟩ := by
  intro image h
  have hheld : (JsonNumber.integer 4).IsHeld := by
    rw [JsonNumber.IsHeld]
    decide
  have hspelling : Json.toInteger? (.string "4.9") = Json.toInteger? (.number (.integer 4)) := by
    decide +kernel
  let read (v : Json) : ImageItem := TemplateReader.readImage
    (TemplateReader.readView TemplateReader.plainDefaults (image.fill v)) (image.fill v)
  have hitem : ∀ v path, TemplateReader.readItem (image.fill v) path =
      .ok (.image false (read v)) := by
    intro v path
    rw [TemplateReader.readItem_eq]
    rfl
  have hvalue : ∀ v, Template.ofJson (h.fill v) = .ok ⟨1, some [.image false (read v)]⟩ := by
    intro v
    have hbody : TemplateReader.body? (h.fill v) =
        some (.object [("items", .array [image.fill v])]) := rfl
    have hcheck : TemplateReader.checkTemplate "template" (h.fill v) = .ok () := rfl
    have hitems : TemplateReader.readItems [image.fill v] "template.body" 0 =
        .ok [.image false (read v)] := by
      rw [TemplateReader.readItems_eq, TemplateReader.readEach, hitem]
      rfl
    rw [Template.ofJson, TemplateReader.readTemplate_eq, hbody, hcheck]
    exact congrArg (· >>= fun items => .ok (⟨1, some items⟩ : Template)) hitems
  obtain ⟨hread, hcongr, htext⟩ := Template.ofJson_lenient h
  obtain ⟨e, he⟩ | ⟨t, ht, halike⟩ := hread
  · cases (he .null).symm.trans (hvalue .null)
  · have hsame : ∀ v, t v = ⟨1, some [.image false (read v)]⟩ := fun v =>
      Except.ok.inj ((ht v).symm.trans (hvalue v))
    refine ⟨hheld, htext _ hheld, hspelling, hcongr _ _ hspelling, read (.number (.integer 4)),
      read (.string "9"), by decide +kernel, by decide +kernel, hvalue _, hvalue _, ?_⟩
    rw [← hsame, ← hsame]
    exact halike _ _

end MessageCard
