import MessageCard.Template

/-!
# How an image slot is sized

Before its bitmap arrives a slot is sized from what is known: the size of the bitmap when one was
seen under its URL, else the size that the document expects. Depending on how the slot's own sides
are sized, one side follows the other through the proportions of the bitmap, or the slot only keeps
a minimal extent.
-/
namespace MessageCard

/-- The two ways of sizing an image slot. -/
inductive SizingPolicy where
  /-- The height follows the width in the bitmap's proportions. -/
  | ratio
  /-- Each side has at least a minimal length. -/
  | minimum
  deriving DecidableEq

/-- Whether a bitmap keeps its proportions in its frame. -/
def ContentMode.preservesAspect : ContentMode → Bool
  | .aspectFill => true
  | .aspectFit => true
  | .scalesToFill => false

/-- The way in which a slot is sized. -/
def SizingPolicy.of (width height : Size) (mode : ContentMode) : SizingPolicy :=
  match width, height with
  | .fixed _, .fixed _ => .minimum
  | .fixed _, _ => if mode.preservesAspect then .ratio else .minimum
  | .fill, .fixed _ => .minimum
  | .fill, _ => .ratio
  | .wrap, .fixed _ => .ratio
  | .wrap, _ => .minimum

/-- How a slot is sized with what is known about its bitmap. -/
inductive Sizing where
  /-- The height is this many times the width. -/
  | ratio (heightPerWidth : Binary64)
  | minimum
  deriving DecidableEq

/-- A slot that should keep its bitmap's proportions is kept at a minimal extent while these are
unknown. -/
def Sizing.of (width height : Size) (mode : ContentMode) (known : Option PixelSize) : Sizing :=
  match SizingPolicy.of width height mode, known.bind PixelSize.ratio with
  | .ratio, some r => .ratio r
  | _, _ => .minimum

end MessageCard
