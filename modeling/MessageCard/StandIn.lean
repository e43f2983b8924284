import MessageCard.Template
import MessageCard.Theme

/-!
# Bodies that stand in for a template

While a template is being fetched a card shows a spinner, and when there will be none it shows a
short text. Both are bodies of ordinary items and are laid out like any other.
-/
namespace MessageCard
namespace StandIn

/-- The scheme of images that the host draws by itself. -/
def internalScheme : String := "internal://"

/-- The image of a spinner, which the host draws by itself. -/
def spinnerUrl : String := "internal://loading-spinner"

def spinnerSize : Binary64 := 36

def cornerRadius : Binary64 := 16

def fontSize : Binary64 := 14

/-- One line of text. -/
def line (text color : String) (weight : FontWeight) : Item :=
  .text false ⟨.plain, text, 0, ⟨some fontSize, some color, weight⟩, .topLeft⟩

/-- A title and an optional subtitle on a background with round corners. -/
def error (t : Theme) (a : Appearance) (title : String) (subtitle : Option String) : List Item :=
  let style := { ViewStyle.plain with
    backgroundColor := some (t.color "error-background" a)
    radius := some cornerRadius
    padding := ⟨12, 12, 12, 12⟩ }
  let below := subtitle.toList.map fun s => line s (t.color "error-subtitle" a) .normal
  [.box { View.plain with style } .column (line title (t.color "error-title" a) .bold :: below)
    .topLeft]

/-- The texts of the theme on a background with round corners. -/
def themed (t : Theme) (a : Appearance) : List Item := error t a t.standIn.title t.standIn.subtitle

/-- A spinner in the middle of a box of a given height. -/
def downloading (t : Theme) (a : Appearance) (height : Binary64) : List Item :=
  let spinner := Item.image false
    ⟨{ View.plain with width := .fixed spinnerSize, height := .fixed spinnerSize }, spinnerUrl,
      .aspectFit, none, none⟩
  let style := { ViewStyle.plain with
    backgroundColor := some (t.color "downloading-background" a)
    radius := some cornerRadius }
  [.box { View.plain with height := .fixed (max height spinnerSize), style } .column [spinner]
    ⟨.center, .center⟩]

end StandIn
end MessageCard
