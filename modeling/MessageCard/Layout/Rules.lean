import MessageCard.Bitmap.Sizing
import MessageCard.Layout.Outline

/-!
# The constraints of a layout

A layout is set up by instructions: add a constraint, or put constraints in the place of those that
an owner has. An owner is a part of a node whose constraints change while the layout lives, such as
the height of a text. The instructions of an outline come in a fixed order, because of two required
constraints that contradict each other the later one gives way.

The children of a box form a chain along its main axis. The chain begins and ends with two spaces
that take up what the children leave, so that alignment is a statement about these spaces.
-/
namespace MessageCard

/-- A part of a node whose constraints may be replaced. -/
inductive Owner where
  /-- The trailing edge of the node's content. -/
  | trailing (node : Nat)
  /-- The height of a text. -/
  | text (node : Nat)
  /-- The size of an image. -/
  | image (node : Nat)
  /-- The height of a carousel. -/
  | carousel (node : Nat)
  deriving DecidableEq

/-- A change to the constraints of a layout. -/
inductive Instruction where
  /-- A constraint that stays. -/
  | state (c : Constraint)
  /-- A constraint that its owner may replace. -/
  | own (o : Owner) (c : Constraint)
  /-- The owner's constraints are dropped and others take their place. -/
  | replace (o : Owner) (cs : List Constraint)
  deriving DecidableEq

/-- The constraints that an instruction adds. -/
def Instruction.added : Instruction → List Constraint
  | .state c => [c]
  | .own _ c => [c]
  | .replace _ cs => cs

/-- A property of a frame. -/
def Frame.at (f : Frame) (p : Property) : Variable := ⟨f, p⟩

namespace Rules

/-- The trailing edge of a node's content lies before its outer edge by the padding. -/
def trailingEdge (node : Nat) (padding : Binary64) (priority : Priority) : Constraint :=
  .equal ((Frame.outer node).at .right) ((Frame.content node).at .right) padding.value priority

/-- The content is as long as a fixed size allows, and else as short as it can be. -/
def contentLength (node : Nat) (view : View) (a : Axis) : Constraint :=
  let content := (Frame.content node).at a.size
  match a.sizeOf view with
  | .fixed v =>
    let padding := view.style.padding
    .fixed content (max (v - a.lead padding - a.trail padding) 0).value .required
  | _ => .fixed content 0 .fitting

/-- The lengths of a node's frames on an axis. -/
def lengths (node : Nat) (view : View) (a : Axis) : List Constraint :=
  [.notBelow ((Frame.outer node).at a.size) 0 .required,
    .notBelow ((Frame.content node).at a.size) 0 .required,
    contentLength node view a]

/-- The content is the outer frame inset by the padding, and neither has a negative side. -/
def frames (node : Nat) (view : View) : List Instruction :=
  let padding := view.style.padding
  let outer := Frame.outer node
  let content := Frame.content node
  [.state (.equal (content.at .left) (outer.at .left) padding.left.value .required),
    .state (.equal (content.at .top) (outer.at .top) padding.top.value .required),
    .state (.equal (outer.at .bottom) (content.at .bottom) padding.bottom.value .required),
    .own (.trailing node) (trailingEdge node padding.right .required)] ++
    (lengths node view .horizontal ++ lengths node view .vertical).map .state

/-- The height of a text, which a text that hugs its lines insists on. -/
def textHeight (node : Nat) (view : View) (height : Binary64) : Constraint :=
  .fixed ((Frame.content node).at .height) height.value
    (if view.height.isWrap then .high else .low)

/-- A text would like its natural width and has the height of its lines. -/
def text (node : Nat) (view : View) (t : TextSlot) : List Instruction :=
  (if view.width.isFixed then [] else
    [.state (.fixed ((Frame.content node).at .width) t.natural.value .low)]) ++
  if view.height.isFixed then [] else
    [.own (.text node) (textHeight node view t.expectedHeight)]

/-- The constraints of an image slot, from what is known about its bitmap. -/
def image (node : Nat) (view : View) (i : ImageSlot) (sizes : ImageSizes) (scale : Binary64) :
    List Constraint :=
  let content := Frame.content node
  let known := (sizes.known i.url i.pixels).filter (·.ratio.isSome)
  let sizing := match Sizing.of view.width view.height i.mode known with
    | .ratio r => [.proportional (content.at .height) (content.at .width) r.value .high]
    | .minimum => [.notBelow (content.at .width) 1 .low, .notBelow (content.at .height) 1 .low]
  let intrinsic (side : Size) (property : Property) (pixels : Nat) : List Constraint :=
    if side.isWrap then [.fixed (content.at property) ((pixels : Binary64) / scale).value .low]
    else []
  match known with
  | none => sizing
  | some p =>
    sizing ++ intrinsic view.width .width p.width ++ intrinsic view.height .height p.height

/-- A carousel is as high as its highest page. -/
def carouselHeight (node : Nat) (height : Binary64) : Constraint :=
  .fixed ((Frame.content node).at .height) height.value .high

/-- A carousel that hugs its pages would like to show all of them. -/
def carousel (node : Nat) (view : View) (extent : Extent) : List Instruction :=
  (if view.width.isWrap then
    [.state (.fixed ((Frame.content node).at .width) extent.width.value .low)] else []) ++
  if view.height.isFixed then [] else
    [.own (.carousel node) (carouselHeight node extent.height)]

/-- A child's place across the axis along which its parent stacks. In the center its margins are
weighed against each other without rounding. -/
def crossing (parent child : Nat) (view : View) (a : Axis) (alignment : Alignment) :
    List Constraint :=
  let outer := Frame.outer child
  let content := Frame.content parent
  let lead := (a.lead view.style.margin).value
  let trail := (a.trail view.style.margin).value
  let atStart := Constraint.equal (outer.at a.start) (content.at a.start) lead .required
  let atStop := Constraint.equal (outer.at a.stop) (content.at a.stop) (-trail) .required
  if (a.sizeOf view).isFill then [atStart, atStop]
  else
    let place := match alignment with
      | .start => atStart
      | .center =>
        .equal (outer.at a.center) (content.at a.center) ((lead - trail) / 2) .required
      | .stop => atStop
    let bound := if (a.sizeOf view).isFixed then Priority.high else .required
    [place, .atLeast (outer.at a.start) (content.at a.start) lead bound,
      .atMost (outer.at a.stop) (content.at a.stop) (-trail) bound]

/-- A child as the chain along the main axis sees it. -/
structure Link where
  node : Nat
  lead : Binary64
  trail : Binary64
  fills : Bool
  deriving DecidableEq

/-- Each link starts after the one before it, and the trailing space after the last. The margins of
two neighbours are added without rounding. -/
def chain (parent : Nat) (a : Axis) : Variable → Rat → List Link → List Constraint
  | before, gap, [] => [.equal ((Frame.trailing parent).at a.start) before gap .required]
  | before, gap, l :: rest =>
    .equal ((Frame.outer l.node).at a.start) before (gap + l.lead.value) .required ::
      chain parent a ((Frame.outer l.node).at a.stop) l.trail.value rest

/-- The spaces before and after the children, by alignment. Nothing is left to align when a child
takes what is left or does not fit. -/
def spaces (parent : Nat) (a : Axis) (alignment : Alignment) (full : Bool) : List Constraint :=
  let leading := (Frame.leading parent).at a.size
  let trailing := (Frame.trailing parent).at a.size
  if full then [.fixed leading 0 .required, .fixed trailing 0 .required]
  else match alignment with
    | .start => [.fixed leading 0 .required]
    | .center => [.equal leading trailing 0 .required]
    | .stop => [.fixed trailing 0 .required]

/-- Children that fill share what is left in equal parts, strictly so when there are no others. -/
def shares (a : Axis) (links : List Link) : List Constraint :=
  match links.filter (·.fills) with
  | [] => []
  | first :: rest =>
    let priority := if links.all (·.fills) then Priority.required else .fitting
    rest.map fun l =>
      .equal ((Frame.outer l.node).at a.size) ((Frame.outer first.node).at a.size) 0 priority

/-- The children of a box along its main axis. -/
def stacking (parent : Nat) (a : Axis) (alignment : Alignment) (links : List Link)
    (overflows : Bool) : List Constraint :=
  let content := Frame.content parent
  let leading := Frame.leading parent
  let trailing := Frame.trailing parent
  [.equal (leading.at a.start) (content.at a.start) 0 .required,
    .equal (trailing.at a.stop) (content.at a.stop) 0 .required,
    .notBelow (leading.at a.size) 0 .required,
    .notBelow (trailing.at a.size) 0 .required] ++
    chain parent a (leading.at a.stop) 0 links ++
    spaces parent a alignment (overflows || links.any (·.fills)) ++
    shares a links

/-- The links of the children that are shown. -/
def links (a : Axis) (children : List OutlineNode) : List Link :=
  (children.filter (!·.hidden)).map fun c =>
    let margin := c.view.style.margin
    ⟨c.id, a.lead margin, a.trail margin, (a.sizeOf c.view).isFill⟩

/-- What a box says about one child that is shown, after the child's own constraints. -/
def placing (parent : Nat) (s : Stacking) (child : OutlineNode) : List Instruction :=
  let cross := s.direction.axis.cross
  (if child.loosened then
    [.replace (.trailing child.id)
      [trailingEdge child.id child.view.style.padding.right .low]] else []) ++
  (crossing parent child.id child.view cross (cross.alignment s.align)).map .state

/-- The content of a node, its children aside. -/
def content (sizes : ImageSizes) (scale : Binary64) (node : Nat) (view : View) :
    Slot → List Instruction
  | .root => []
  | .box _ => []
  | .text t => text node view t
  | .image i => (image node view i sizes scale).map (.own (.image node))
  | .carousel _ extent => carousel node view extent

mutual

/-- The constraints of a node and of all below it; a hidden node has none. -/
def ofNode (sizes : ImageSizes) (scale : Binary64) : OutlineNode → List Instruction
  | ⟨id, _, view, hidden, _, slot, children⟩ =>
    if hidden then []
    else
      frames id view ++ content sizes scale id view slot ++
        match slot.stacking? with
        | none => []
        | some s =>
          let main := s.direction.axis
          ofChildren sizes scale id s children ++
            (stacking id main (main.alignment s.align) (links main children) s.overflows).map .state

/-- The constraints of the children of a box, each followed by its place in the box. -/
def ofChildren (sizes : ImageSizes) (scale : Binary64) (parent : Nat) (s : Stacking) :
    List OutlineNode → List Instruction
  | [] => []
  | child :: rest =>
    (if child.hidden then [] else ofNode sizes scale child ++ placing parent s child) ++
      ofChildren sizes scale parent s rest

end

/-- The constraints of a card: its corner is the origin. -/
def ofCard (sizes : ImageSizes) (scale : Binary64) (root : OutlineNode) : List Instruction :=
  [.state (.fixed ((Frame.outer root.id).at .left) 0 .required),
    .state (.fixed ((Frame.outer root.id).at .top) 0 .required)] ++ ofNode sizes scale root

end Rules
end MessageCard
