import MessageCard.Card.Rendering
import MessageCard.Placeholder
import MessageCard.Svg.Drawing
import MessageCard.Template.Reader

/-!
# Previews

From the text of a template to a drawing: the variables are filled in, the template is read, its
items are laid out, and the layout is drawn.
-/
namespace MessageCard

/-- Why a template's text has no preview. -/
inductive PreviewError where
  | parse (f : TemplateFault)
  | bind (e : ColorError)
  | layout (e : LayoutError)
  deriving DecidableEq

/-- The text of an error. -/
def PreviewError.message : PreviewError → String
  | .parse f => "parse error: " ++ f.message
  | .bind e => "bind error: " ++ e.message
  | .layout e => "layout error: " ++ e.message

/-- What is filled into a template's text. -/
structure Bindings where
  /-- Variables with their values. -/
  values : List (String × String)
  /-- Color variables with their pairs as they are written. -/
  colors : List (String × String)

/-- What a preview depends on besides the template. -/
structure PreviewSettings where
  layout : LayoutSettings
  svg : SvgSettings
  theme : Theme
  appearance : Appearance

namespace Preview

/-- A template's text with its variables filled in. -/
def fill (s : PreviewSettings) (b : Bindings) (text : String) : Except PreviewError String :=
  match readColors s.theme.mode b.colors with
  | .ok colors => .ok (Placeholder.bind b.values (colors.on s.appearance) text)
  | .error e => .error (.bind e)

/-- The layout of a template's text. -/
def layOut (σ : Type) [RelationSolver σ] (s : PreviewSettings) (text : String) :
    Except PreviewError LayoutTree :=
  match Template.ofText text with
  | .error f => .error (.parse f)
  | .ok t => match MessageCard.layOut σ s.layout t with
    | .error e => .error (.layout e)
    | .ok tree => .ok tree

/-- The drawing of a layout. -/
def draw (s : PreviewSettings) (tree : LayoutTree) : String :=
  Svg.render s.svg s.theme s.appearance tree

/-- The drawing of a template's text. -/
def render (σ : Type) [RelationSolver σ] (s : PreviewSettings) (text : String) :
    Except PreviewError String :=
  (layOut σ s text).map (draw s)

/-- The drawing of a template's text, or of the theme's error body where that fails. -/
def renderOrStandIn (σ : Type) [RelationSolver σ] (s : PreviewSettings) (text : String) :
    Except PreviewError String :=
  match layOut σ s text with
  | .ok tree => .ok (draw s tree)
  | .error _ =>
    let body := StandIn.themed s.theme s.appearance
    match (Card.renderBody .empty ⟨"", 0⟩ body (Card.new s.layout : Card σ)).2 with
    | .ok tree => .ok (draw s tree)
    | .error e => .error (.layout e)

end Preview
end MessageCard
