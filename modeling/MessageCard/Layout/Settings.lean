import MessageCard.Text.Wrapping

/-!
# What a layout depends on besides its template
-/
namespace MessageCard

/-- The settings of a layout. -/
structure LayoutSettings where
  /-- The width of the whole card. -/
  maxWidth : Binary64 := 280
  /-- The size of fonts for which the template states none. -/
  fontSize : Binary64 := 14
  /-- How many pixels of a bitmap make a point. -/
  displayScale : Binary64 := 2
  /-- The greatest width of a carousel's page. -/
  pageMaxWidth : Binary64 := 240
  measurer : TextMeasurer := .approximate 0.6 1.2
  /-- How often the heights of texts may be measured again at the widths found. -/
  textPasses : Nat := 4

/-- The least display scale, so that lengths can be divided by it: one over two to the power of
52. -/
def LayoutSettings.leastScale : Binary64 := .round (mkRat 1 (twoTo 52))

/-- A display scale kept above the least one. -/
def LayoutSettings.clampScale (scale : Binary64) : Binary64 := max scale leastScale

/-- The height of a card that waits for its template. -/
def downloadingHeight : Binary64 := 120

/-- The font of a text. -/
def LayoutSettings.font (s : LayoutSettings) (style : TextStyle) : Font :=
  ⟨style.size.getD s.fontSize, style.weight⟩

end MessageCard
