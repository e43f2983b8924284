import MessageCard.Card

/-!
# Rendering a message

A message is rendered in two steps. First its items are arranged: every item gets its place in the
outline, and the pages of its carousels are rendered as cards of their own. Then the constraints of
the outline are solved and the layout settles. Arranging needs no solver, so the outline, and with
it every constraint, is a function of the items, the settings and the sizes known.
-/
namespace MessageCard
namespace Card

variable {σ : Type} [RelationSolver σ]

/-- The width of a carousel's pages. -/
def pageWidth (s : LayoutSettings) (inner : Binary64) : Binary64 := max (min s.pageMaxWidth inner) 0

/-- The root of an outline, a column as wide as the card. -/
def rootNode (s : LayoutSettings) (children : List OutlineNode) : OutlineNode :=
  ⟨0, "body", { View.plain with width := .fixed s.maxWidth }, false, false, .root, children⟩

/-- The items of a body, as children of the root. -/
def bodySiblings (s : LayoutSettings) (sizes : ImageSizes) (items : List Item) : Siblings :=
  ⟨"body", .vertical, s.maxWidth, false, .of s sizes .column s.maxWidth none items⟩

/-- The bitmaps of an earlier layout that still have their place: at the same path, under the same
URL. -/
def carriedImages (before : LiveLayout σ) (root : OutlineNode) : Table Nat LoadedImage :=
  let carried (n : OutlineNode) : Option LoadedImage :=
    match n.slot with
    | .image i =>
      let same (o : OutlineNode) : Bool := match o.slot with
        | .image j => o.path = n.path && j.url = i.url
        | _ => false
      (before.root.nodes.find? same).bind fun o => before.images.find? o.id
    | _ => none
  root.nodes.foldl (fun images n =>
    match carried n with
    | some image => images.insert n.id image
    | none => images) .empty

/-- The card with the layout of an outline. -/
def finish (c : Card σ) (identity : CardIdentity) (sizes : ImageSizes)
    (arranged : List OutlineNode × CarouselCache (Card σ)) :
    Card σ × Except LayoutError LayoutTree :=
  let (children, carousels) := arranged
  let before := c.live.filter fun _ => c.identity = identity
  let blank : Card σ := ⟨c.settings, identity, carousels.endPass, none⟩
  let root := rootNode c.settings children
  let images := before.elim .empty (carriedImages · root)
  let settled := do
    let board ← Board.run .empty (Rules.ofCard sizes c.settings.displayScale root)
    settle c.settings blank.strip? root images ⟨board, root.expectedHeights⟩
  match settled with
  | .ok live => ({ blank with live := some live }, .ok live.tree)
  | .error e => (blank, .error (.system e))

mutual

/-- The outline of an item at its place, and the carousels with those of the item. -/
def arrange (s : LayoutSettings) (sizes : ImageSizes) (identity : CardIdentity) :
    Item → Place → CarouselCache (Card σ) → OutlineNode × CarouselCache (Card σ)
  | .box view direction items align, p, carousels =>
    let siblings := p.siblings s sizes view direction items
    let (children, carousels) :=
      arrangeAll s sizes identity siblings items 0 (p.id + 1) carousels
    (p.node view (.box ⟨direction, align, siblings.plan.overflows⟩) children, carousels)
  | .text isButton t, p, carousels =>
    (p.node t.view (.text (p.textSlot s isButton t)) [], carousels)
  | .image isButton i, p, carousels => (p.node i.view (.image (i.slot isButton)) [], carousels)
  | .carousel view pages spacing, p, carousels =>
    if p.hidden then (p.node view (.carousel spacing .zero) [], carousels)
    else
      let key : CarouselKey := ⟨identity, p.path⟩
      let width := pageWidth s (view.innerWidth p.available)
      let (state, carousels) :=
        carousels.checkout key pages.length fun _ => new { s with maxWidth := width }
      let cards := renderPages sizes key width pages 0 state.pages
      (p.node view (.carousel spacing (pagesExtent spacing cards)) [],
        carousels.put key { state with pages := cards })

/-- The outlines of the items of a box, from the item with a given index on. -/
def arrangeAll (s : LayoutSettings) (sizes : ImageSizes) (identity : CardIdentity)
    (siblings : Siblings) :
    List Item → Nat → Nat → CarouselCache (Card σ) →
      List OutlineNode × CarouselCache (Card σ)
  | [], _, _, carousels => ([], carousels)
  | item :: rest, index, id, carousels =>
    let (node, carousels) :=
      arrange s sizes identity item (siblings.place id index item) carousels
    let (nodes, carousels) :=
      arrangeAll s sizes identity siblings rest (index + 1) (id + item.count) carousels
    (node :: nodes, carousels)

/-- The pages of a carousel, rendered on the cards that are there for them. -/
def renderPages (sizes : ImageSizes) (key : CarouselKey) (width : Binary64) :
    List (TemplateOf Item) → Nat → List (Card σ) → List (Card σ)
  | [], _, cards => cards
  | _ :: _, _, [] => []
  | page :: rest, index, card :: cards =>
    (renderPage sizes (key.page index) page (card.withMaxWidth width)).1 ::
      renderPages sizes key width rest (index + 1) cards

/-- The card with a template's layout, or cleared when the template has none. -/
def renderPage (sizes : ImageSizes) (identity : CardIdentity) :
    TemplateOf Item → Card σ → Card σ × Except LayoutError LayoutTree
  | ⟨version, none⟩, card =>
    (card.cleared, .error (if supportedVersions.contains version then .noBody
      else .unsupportedVersion version))
  | ⟨version, some items⟩, card =>
    if supportedVersions.contains version then
      card.finish identity sizes
        (arrangeAll card.settings sizes identity (bodySiblings card.settings sizes items) items 0 1
          card.carousels.beginPass)
    else (card.cleared, .error (.unsupportedVersion version))

end

/-- The card with the layout of a message's body. -/
def renderBody (sizes : ImageSizes) (identity : CardIdentity) (items : List Item) (card : Card σ) :
    Card σ × Except LayoutError LayoutTree :=
  card.finish identity sizes
    (arrangeAll card.settings sizes identity (bodySiblings card.settings sizes items) items 0 1
      card.carousels.beginPass)

/-- The card with the layout of a message's template. A template without a body or of an unsupported
version leaves the card empty. -/
def render (sizes : ImageSizes) (identity : CardIdentity) (t : Template) (card : Card σ) :
    Card σ × Except LayoutError LayoutTree :=
  renderPage sizes identity t card

/-- A template that can be laid out is rendered by its body. -/
theorem render_eq_renderBody (sizes : ImageSizes) (identity : CardIdentity) (version : Int)
    (items : List Item) (card : Card σ) (h : supportedVersions.contains version = true) :
    render sizes identity ⟨version, some items⟩ card = renderBody sizes identity items card := by
  simp only [render, renderPage, h, if_true, renderBody]

end Card

/-- The layout of a template on its own. -/
def layOut (σ : Type) [RelationSolver σ] (s : LayoutSettings) (t : Template) :
    Except LayoutError LayoutTree :=
  (Card.render .empty ⟨"", 0⟩ t (Card.new s : Card σ)).2

end MessageCard
