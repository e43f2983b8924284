import MessageCard.Bitmap.Sizes
import MessageCard.Layout.Axis
import MessageCard.Layout.Settings

/-!
# Estimated sizes

Whether the items of a box fit is decided before anything is solved, from estimates of their sizes:
texts at their natural width, images at the size known for them, boxes by their items. An item that
fills what is left counts as empty on that axis.
-/
namespace MessageCard

/-- Added to a width before text is wrapped into it, so that a width found by the solver that is a
hair too small does not move the last word to a new line. -/
def wrapTolerance : Binary64 := 0.01

/-- The width that an item has for its content. -/
def View.innerWidth (view : View) (available : Binary64) : Binary64 :=
  let padding := view.style.padding.horizontal
  match view.width with
  | .fixed width => max (width - padding) 0
  | _ => max (available - padding) 0

/-- The height that an item has for its content, where it is known. -/
def View.innerHeight? (view : View) : Option Binary64 :=
  view.height.fixedValue.map fun height => max (height - view.style.padding.vertical) 0

/-- The greatest number of lines of a text, which is one where texts are kept to single lines. -/
def TextItem.lineLimit (t : TextItem) (singleLine : Bool) : Nat :=
  if singleLine then 1 else t.maxLines

/-- What is left of a width beside an item's margins. -/
def View.available (view : View) (inner : Binary64) : Binary64 :=
  max (inner - view.style.margin.horizontal) 0

namespace LayoutSettings

def naturalWidth (s : LayoutSettings) (t : TextItem) : Binary64 :=
  s.measurer.naturalWidth (s.font t.style) t.text.toList

/-- The height of a text that is as wide as it would like to be and may be. -/
def measuredHeight (s : LayoutSettings) (t : TextItem) (available : Binary64) (singleLine : Bool) :
    Binary64 :=
  let inner := t.view.innerWidth available
  let width := if t.view.width.isFixed then inner else min (s.naturalWidth t) inner
  (s.measurer.measure (s.font t.style) (width + wrapTolerance) (t.lineLimit singleLine)
    t.text.toList).height

/-- The outer extent of a text that is not wrapped, in the height that it takes when it is. -/
def textExtent (s : LayoutSettings) (t : TextItem) (available : Binary64) (singleLine : Bool) :
    Extent :=
  Extent.grow ⟨s.naturalWidth t, s.measuredHeight t available singleLine⟩ t.view.style.padding

/-- The extent of an image in points, from the size known for it. -/
def imageExtent (s : LayoutSettings) (known : Option PixelSize) : Extent :=
  match known with
  | none => .zero
  | some p => ⟨p.width / s.displayScale, p.height / s.displayScale⟩

end LayoutSettings

/-- The outer length of a side with a given content. -/
def Size.outer (content padding : Binary64) : Size → Binary64
  | .fixed value => value
  | .fill => 0
  | .wrap => content + padding

/-- The outer extent of an item with a given content. -/
def View.outerExtent (view : View) (content : Extent) : Extent :=
  let padding := view.style.padding
  ⟨view.width.outer content.width padding.horizontal,
    view.height.outer content.height padding.vertical⟩

mutual

/-- The least plausible outer extent of an item, margins excluded. -/
def estimate (s : LayoutSettings) (sizes : ImageSizes) (available : Binary64) (singleLine : Bool) :
    Item → Extent
  | .box view direction items _ =>
    view.outerExtent
      (estimateStack s sizes direction.axis (view.innerWidth available) .zero items)
  | .text _ t =>
    let extent := s.textExtent t available singleLine
    let padding := t.view.style.padding
    t.view.outerExtent
      ⟨min (extent.width - padding.horizontal) (t.view.innerWidth available),
        extent.height - padding.vertical⟩
  | .image _ i => i.view.outerExtent (s.imageExtent (sizes.known i.url i.pixels))
  | .carousel view _ _ => view.outerExtent .zero

/-- The extent of items stacked after those that have been counted, margins included. -/
def estimateStack (s : LayoutSettings) (sizes : ImageSizes) (axis : Axis) (inner : Binary64)
    (counted : Extent) : List Item → Extent
  | [] => counted
  | item :: rest =>
    let extent := estimate s sizes (item.view.available inner) false item
    estimateStack s sizes axis inner (counted.stack axis (extent.grow item.view.style.margin)) rest

end
end MessageCard
