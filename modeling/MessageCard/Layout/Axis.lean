import MessageCard.Constraint
import MessageCard.Template

/-!
# The two axes of a layout

A box stacks its items along its main axis and aligns them on the cross axis. What is said about
stacking and aligning is the same for rows and columns, up to the names of the properties.
-/
namespace MessageCard

inductive Axis where
  | horizontal
  | vertical
  deriving DecidableEq

/-- Where things go that do not fill their place. -/
inductive Alignment where
  | start
  | center
  | stop
  deriving DecidableEq

/-- A width and a height. -/
structure Extent where
  width : Binary64
  height : Binary64
  deriving DecidableEq

/-- The axis along which a box stacks its items. -/
def Direction.axis : Direction → Axis
  | .row => .horizontal
  | .column => .vertical

namespace Axis

def cross : Axis → Axis
  | .horizontal => .vertical
  | .vertical => .horizontal

def start : Axis → Property
  | .horizontal => .left
  | .vertical => .top

def size : Axis → Property
  | .horizontal => .width
  | .vertical => .height

def stop : Axis → Property
  | .horizontal => .right
  | .vertical => .bottom

def center : Axis → Property
  | .horizontal => .centerX
  | .vertical => .centerY

/-- The inset before the content on this axis. -/
def lead (a : Axis) (i : Insets) : Binary64 :=
  match a with
  | .horizontal => i.left
  | .vertical => i.top

/-- The inset after the content on this axis. -/
def trail (a : Axis) (i : Insets) : Binary64 :=
  match a with
  | .horizontal => i.right
  | .vertical => i.bottom

/-- How the view's side on this axis gets its length. -/
def sizeOf (a : Axis) (v : View) : Size :=
  match a with
  | .horizontal => v.width
  | .vertical => v.height

def alignment (a : Axis) (al : Align) : Alignment :=
  match a with
  | .horizontal => match al.horizontal with
    | .left => .start
    | .center => .center
    | .right => .stop
  | .vertical => match al.vertical with
    | .top => .start
    | .center => .center
    | .bottom => .stop

/-- The length of an extent on this axis. -/
def along (a : Axis) (e : Extent) : Binary64 :=
  match a with
  | .horizontal => e.width
  | .vertical => e.height

end Axis

namespace Extent

def zero : Extent := ⟨0, 0⟩

/-- The extent of things stacked along an axis, with one more of them. -/
def stack (a : Axis) (sum next : Extent) : Extent :=
  match a with
  | .horizontal => ⟨sum.width + next.width, max sum.height next.height⟩
  | .vertical => ⟨max sum.width next.width, sum.height + next.height⟩

/-- The extent with margins or paddings around it. -/
def grow (e : Extent) (i : Insets) : Extent := ⟨e.width + i.horizontal, e.height + i.vertical⟩

end Extent
end MessageCard
