import MessageCard.Template.Reader

/-!
# Checking before reading

Items and pages are elements read one after another. A template or an item is first checked on its
own, and only then are the elements in it read; nothing is checked after that.
-/
namespace MessageCard

open Json (Field)

/-- Two steps succeed if the first one does and the second one does after it. -/
theorem bind_eq_ok_iff {ε α β : Type} {x : Except ε α} {f : α → Except ε β} {b : β} :
    x >>= f = .ok b ↔ ∃ a, x = .ok a ∧ f a = .ok b := by
  cases x with
  | error e => simp [bind, Except.bind]
  | ok a => simp [bind, Except.bind]

namespace TemplateReader

/-- The kinds of items. -/
def itemKinds : List String := ["box", "text", "textButton", "image", "imageButton", "carouselView"]

/-- Elements read one after another, the first of them at an index. -/
def readEach {α : Type} (read : Json → String → Except TemplateFault α) (parent : String) :
    List Json → Nat → Except TemplateFault (List α)
  | [], _ => .ok []
  | j :: rest, index => do
    let a ← read j (itemPath parent index)
    let as ← readEach read parent rest (index + 1)
    return a :: as

theorem readItems_eq (js : List Json) (parent : String) (index : Nat) :
    readItems js parent index = readEach readItem parent js index := by
  induction js generalizing index with
  | nil => rw [readItems, readEach]
  | cons j rest ih => rw [readItems, readEach]; simp only [ih]

theorem readPages_eq (js : List Json) (parent : String) (index : Nat) :
    readPages js parent index = readEach readTemplate parent js index := by
  induction js generalizing index with
  | nil => rw [readPages, readEach]
  | cons j rest ih => rw [readPages, readEach]; simp only [ih]

/-! ## Templates -/

/-- What is demanded of a template's own object. -/
def checkTemplate (path : String) (j : Json) : Except TemplateFault Unit :=
  match j with
  | .object _ => checked path templateFields j
  | _ => .error .notAnObject

/-- The body of a template's object. -/
def body? (j : Json) : Option Json := (j.get? "body").filter fun v => !v.isNull

theorem sizeOf_body?_lt {j body : Json} (h : body? j = some body) : sizeOf body < sizeOf j := by
  cases j with
  | object members =>
    have hfield : Json.field? templateFields (.object members) "body" = some body := h
    exact Json.sizeOf_field?_lt hfield
  | _ => cases h

theorem readTemplate_eq (j : Json) (path : String) :
    readTemplate j path = (do
      checkTemplate path j
      match body? j with
      | none => return ⟨integer templateFields j "version", none⟩
      | some body =>
        let items ← readItems (bodyElements body) (path ++ ".body") 0
        return ⟨integer templateFields j "version", some items⟩) := by
  cases j with
  | object members =>
    have hbody : body? (.object members) =
        Json.field? templateFields (.object members) "body" := rfl
    rw [readTemplate, hbody]
    split <;> rename_i h <;> simp only [h, checkTemplate]
  | _ => simp [readTemplate, checkTemplate, bind, Except.bind]

/-! ## Items -/

/-- What a kind of item demands of its object. -/
def checkKind (path : String) (j : Json) : String → Except TemplateFault Unit
  | "box" => checked path boxFields j
  | "text" | "textButton" => do
    requireField j "text" path
    checked path textFields j
  | "image" | "imageButton" => do
    requireField j "imageUrl" path
    checked path imageFields j
  | "carouselView" => checked path carouselFields j
  | other => .error (.unknownItemType other path)

/-- What is demanded of an item's own object: a kind, a view, and what the kind demands. -/
def checkItem (path : String) (j : Json) : Except TemplateFault String := do
  let tag ← itemTag j path
  checked path viewFields j
  checkKind path j tag
  return tag

/-- The item of a kind that an object holds, once it is checked. -/
def readKind (path : String) (j : Json) : String → Except TemplateFault Item
  | "box" => do
    let items ← readItems (elements boxFields j "items") path 0
    return .box (readView plainDefaults j) (readDirection j) items (alignOf boxFields j)
  | "text" => return .text false (readText (readView plainDefaults j) 0 j)
  | "textButton" => return .text true (readText (readView buttonDefaults j) buttonLines j)
  | "image" => return .image false (readImage (readView plainDefaults j) j)
  | "imageButton" => return .image true (readImage (readView plainDefaults j) j)
  | "carouselView" => do
    let pages ← readPages (elements carouselFields j "items") path 0
    return .carousel (readView plainDefaults j) pages
      ((length? carouselFields j "spacing").getD carouselSpacing)
  | other => .error (.unknownItemType other path)

theorem readItem_eq (j : Json) (path : String) :
    readItem j path = checkItem path j >>= readKind path j := by
  rw [readItem, checkItem]
  simp only [bind_assoc, pure_bind]
  refine bind_congr fun tag => bind_congr fun _ => ?_
  split <;> simp only [checkKind, readKind, bind_assoc]
  rfl

theorem get?_of_itemTag {j : Json} {path tag : String} (h : itemTag j path = .ok tag) :
    j.get? "type" = some (.string tag) := by
  unfold itemTag at h
  split at h
  case h_1 members =>
    split at h
    case h_1 found hfound =>
      cases h
      obtain ⟨v, hv, hstring⟩ := Option.bind_eq_some_iff.mp hfound
      cases v with
      | string s =>
        cases hstring
        exact hv
      | _ => cases hstring
    case h_2 => cases h
  case h_2 => cases h

theorem mem_itemKinds_of_checkKind {j : Json} {path tag : String}
    (h : checkKind path j tag = .ok ()) : tag ∈ itemKinds := by
  unfold checkKind at h
  split at h <;> first | cases h | decide

/-- An item that passes its checks is of one of the kinds. -/
theorem kind_of_checkItem {j : Json} {path tag : String} (h : checkItem path j = .ok tag) :
    j.get? "type" = some (.string tag) ∧ tag ∈ itemKinds := by
  obtain ⟨found, htag, h⟩ := bind_eq_ok_iff.mp h
  obtain ⟨_, -, h⟩ := bind_eq_ok_iff.mp h
  obtain ⟨_, hkind, h⟩ := bind_eq_ok_iff.mp h
  cases h
  exact ⟨get?_of_itemTag htag, mem_itemKinds_of_checkKind hkind⟩

end TemplateReader
end MessageCard
