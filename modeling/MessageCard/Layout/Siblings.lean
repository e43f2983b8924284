import MessageCard.Layout.Estimate

/-!
# What a box decides about its items as a whole

Three rules look at all items of a box. Texts that together are too wide for their row are kept to
single lines. A text that does not fit hides the items after it and those that only fill space
before it. And in a row of fixed widths that are too many, the first item that does not fit and all
after it may have their trailing padding cut.
-/
namespace MessageCard

/-- By how much an estimate may be too large before it counts. -/
def overflowTolerance : Binary64 := 0.5

/-- The decisions about the items of a box. -/
structure SiblingPlan where
  /-- Every text has one line at most. -/
  singleLine : Bool
  /-- The text that does not fit. -/
  overflowAt : Option Nat
  /-- The first item whose trailing padding may be cut. -/
  looseFrom : Option Nat

namespace SiblingPlan

/-- The plan that leaves everything as it is. -/
def none : SiblingPlan := ⟨false, .none, .none⟩

def overflows (p : SiblingPlan) : Bool := p.overflowAt.isSome

/-- Whether an item has to give way to the text that does not fit. -/
def hides (p : SiblingPlan) (axis : Axis) (index : Nat) (item : Item) : Bool :=
  match p.overflowAt with
  | .none => false
  | some i => i < index || (index < i && (axis.sizeOf item.view).isFill)

/-- Whether an item's trailing padding may be cut. -/
def loosens (p : SiblingPlan) (index : Nat) : Bool :=
  match p.looseFrom with
  | .none => false
  | some i => i ≤ index

/-- Whether the texts of a row that wrap are together as wide as the row. -/
def keepsSingleLines (s : LayoutSettings) (inner : Binary64) (items : List Item) : Bool :=
  let wrapped := (items.filterMap Item.asText).filter (·.view.width.isWrap)
  !wrapped.isEmpty && inner ≤ Binary64.sum (wrapped.map s.naturalWidth)

/-- The extent of an item that may not fit: a text whose size on the axis is flexible. -/
def flexibleText? (s : LayoutSettings) (axis : Axis) (available : Binary64) (singleLine : Bool)
    (item : Item) : Option Binary64 :=
  match item.asText with
  | .none => .none
  | some t =>
    if (axis.sizeOf t.view).isFixed then .none
    else some (axis.along (s.textExtent t available singleLine))

/-- The first text that does not fit, looking from an item that starts at a given place. -/
def firstOverflow (s : LayoutSettings) (sizes : ImageSizes) (axis : Axis) (inner limit : Binary64)
    (singleLine : Bool) (index : Nat) (origin : Binary64) : List Item → Option Nat
  | [] => .none
  | item :: rest =>
    let margin := item.view.style.margin
    let available := item.view.available inner
    let next := firstOverflow s sizes axis inner limit singleLine (index + 1)
      (origin + (axis.lead margin + axis.trail margin +
        axis.along (estimate s sizes available singleLine item))) rest
    match flexibleText? s axis available singleLine item with
    | .none => next
    | some extent =>
      if limit + overflowTolerance < origin + axis.lead margin + extent then some index else next

/-- The first item that ends past a width, looking from an item that starts at a given place. -/
def firstPast (inner : Binary64) (index : Nat) (origin : Binary64) : List Item → Option Nat
  | [] => .none
  | item :: rest =>
    let stop := origin +
      (item.view.style.margin.horizontal + (item.view.width.fixedValue).getD 0)
    if inner + overflowTolerance < stop then some index else firstPast inner (index + 1) stop rest

/-- The decisions about items in a box with a known width, and with a height if that is known. -/
def of (s : LayoutSettings) (sizes : ImageSizes) (direction : Direction) (inner : Binary64)
    (height : Option Binary64) (items : List Item) : SiblingPlan :=
  let singleLine := match direction with
    | .row => keepsSingleLines s inner items
    | .column => false
  let limit := match direction with
    | .row => some inner
    | .column => height
  let overflowAt := limit.bind fun limit =>
    firstOverflow s sizes direction.axis inner limit singleLine 0 0 items
  let looseFrom := match direction, overflowAt with
    | .row, .none => if items.all (·.view.width.isFixed) then firstPast inner 0 0 items else .none
    | _, _ => .none
  ⟨singleLine, overflowAt, looseFrom⟩

end SiblingPlan
end MessageCard
