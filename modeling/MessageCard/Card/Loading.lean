import MessageCard.Bitmap.Loader
import MessageCard.Card.Images

/-!
# Answering a card's requests

The bitmap that a card asks for is loaded by its URL, and the outcome goes back to the card with the
request. A failure leaves the card as it is: its slot keeps the placeholder.
-/
namespace MessageCard

/-- The outcome of a request. -/
structure ImageEvent where
  request : ImageRequest
  result : Except ImageError Bitmap

/-- A request is answered, once its source has an answer. -/
def ImageLoader.answer {β τ : Type} [ImageCodec β] (source : ImageSourceOf β τ)
    (request : ImageRequest) (l : ImageLoader) (s : τ) : Option ImageEvent × ImageLoader × τ :=
  let (result, l, s) := load source request.url none l s
  (result.map (⟨request, ·⟩), l, s)

/-- The card after the outcome of a request, if that changes it. -/
def Card.handle {σ : Type} [RelationSolver σ] (sizes : ImageSizes) (event : ImageEvent)
    (c : Card σ) : Option (Accepted σ) :=
  match event.result with
  | .ok b => c.accept sizes event.request.identity event.request.route event.request.url b
  | .error _ => none

end MessageCard
