import MessageCard.Proofs.Json.Agreement
import MessageCard.Proofs.Template.FirstFault
import MessageCard.Proofs.Template.Leniency

/-!
# Members that nobody reads

A document may have members that the reader does not know. Whatever object of it they stand in, the
document is read as if they were not there, and has the same fault if it has one.

The names that are read of an object depend on what it stands for, and those of an item on its kind.
Two documents that differ in the members of one object are followed outward from this object, to
its item, and through items and pages to the whole template.
-/
namespace MessageCard

open Json (Field RecordHole ObjectHole RecordWay WayHole ChecksAlike AgreeOn SameFields SameRecord)

namespace TemplateReader

/-! ## Reading the same fields -/

section Records

variable {v w : Json}

theorem integer?_same {fields : List Field} (h : SameFields fields v w) {name : String}
    (hname : name ∈ fields.map (·.name)) : integer? fields v name = integer? fields w name := by
  rw [integer?, integer?, h.field?_eq hname]

theorem integer_same {fields : List Field} (h : SameFields fields v w) {name : String}
    (hname : name ∈ fields.map (·.name)) : integer fields v name = integer fields w name := by
  rw [integer, integer, integer?_same h hname]

theorem length?_same {fields : List Field} (h : SameFields fields v w) {name : String}
    (hname : name ∈ fields.map (·.name)) : length? fields v name = length? fields w name := by
  rw [length?, length?, integer?_same h hname]

theorem readInsets_congr (h : SameFields insetsFields v w) : readInsets v = readInsets w := by
  simp (disch := decide) only [readInsets, integer_same h]

theorem readSize_congr (h : SameFields sizeFields v w) (fallback : Size) :
    readSize fallback v = readSize fallback w := by
  simp (disch := decide) only [readSize, integer_same h, h.stringField?_eq]

theorem readAction_congr (h : SameFields actionFields v w) : readAction v = readAction w := by
  simp (disch := decide) only [readAction, h.stringField?_eq]

theorem readAlign_congr (h : SameFields alignFields v w) : readAlign v = readAlign w := by
  simp (disch := decide) only [readAlign, h.stringField?_eq]

theorem readViewStyle_congr (h : SameFields viewStyleFields v w) (d : StyleDefaults) :
    readViewStyle d v = readViewStyle d w := by
  simp (disch := decide) only [readViewStyle, length?_same h, h.stringField?_eq, h.field?_eq]

theorem readView_congr (h : SameFields viewFields v w) (d : StyleDefaults) :
    readView d v = readView d w := by
  simp (disch := decide) only [readView, h.field?_eq]

theorem readTextStyle_congr (h : SameFields textStyleFields v w) :
    readTextStyle v = readTextStyle w := by
  simp (disch := decide) only [readTextStyle, length?_same h, h.stringField?_eq]

theorem readText_congr (h : SameFields textFields v w) (view : View) (lines : Nat) :
    readText view lines v = readText view lines w := by
  simp (disch := decide) only [readText, integer?_same h, h.stringField?_eq, alignOf, h.field?_eq]

theorem readPixels_congr (h : SameFields metaDataFields v w) : readPixels v = readPixels w := by
  simp (disch := decide) only [readPixels, integer_same h]

theorem readImage_congr (h : SameFields imageFields v w) (view : View) :
    readImage view v = readImage view w := by
  simp (disch := decide) only [readImage, h.stringField?_eq, h.field?_eq]

theorem readDirection_congr (h : SameFields boxFields v w) : readDirection v = readDirection w := by
  simp (disch := decide) only [readDirection, h.stringField?_eq]

theorem alignOf_congr {fields : List Field} (h : SameFields fields v w)
    (hname : "align" ∈ fields.map (·.name)) : alignOf fields v = alignOf fields w := by
  rw [alignOf, alignOf, h.field?_eq hname]

theorem elements_congr {fields : List Field} (h : SameFields fields v w)
    (hname : "items" ∈ fields.map (·.name)) :
    elements fields v "items" = elements fields w "items" := by
  rw [elements, elements, h.field?_eq hname]

end Records

/-! ## Items -/

/-- The fields that a kind of item adds to those of its view. -/
def kindFields : String → List Field
  | "box" => boxFields
  | "text" | "textButton" => textFields
  | "image" | "imageButton" => imageFields
  | "carouselView" => carouselFields
  | _ => []

/-- The names that are read of an item's object. Without a kind there are no others. -/
def itemNames (members : List (String × Json)) : List String :=
  "type" :: match Json.lookUp "type" members with
    | some (.string tag) => (viewFields ++ kindFields tag).map (·.name)
    | _ => []

/-- An item is read alike if its kind is, and what the kind looks at. -/
theorem readItem_congr {v w : Json} {path : String} (htag : itemTag v path = itemTag w path)
    (hkind : ∀ tag, itemTag v path = .ok tag →
      checked path viewFields v = checked path viewFields w ∧
      checkKind path v tag = checkKind path w tag ∧ readKind path v tag = readKind path w tag) :
    readItem v path = readItem w path := by
  rw [readItem_eq, readItem_eq, checkItem, checkItem, ← htag]
  cases hv : itemTag v path with
  | error e => rfl
  | ok tag =>
    obtain ⟨hview, hcheck, hread⟩ := hkind tag hv
    have hok : ∀ k : String → Except TemplateFault Item, (Except.ok tag >>= k) = k tag :=
      fun _ => rfl
    simp only [bind_assoc, pure_bind, hok, hview, hcheck, hread]

section Members

variable {names : List String} {ms ns : List (String × Json)}

theorem itemTag_agree (h : AgreeOn names ms ns) (htype : "type" ∈ names) (path : String) :
    itemTag (.object ms) path = itemTag (.object ns) path := by
  simp only [itemTag, h.lookUp_eq htype]

theorem checked_agree (h : AgreeOn names ms ns) {fields : List Field}
    (hfields : fields.map (·.name) ⊆ names) (path : String) :
    checked path fields (.object ms) = checked path fields (.object ns) := by
  simp only [checked, Json.recordMembers, h.checkMembers_eq hfields]

theorem requireField_agree (h : AgreeOn names ms ns) {field : String} (hfield : field ∈ names)
    (path : String) :
    requireField (.object ms) field path = requireField (.object ns) field path := by
  rw [requireField, requireField, h.get?_eq hfield]

/-- The check of a kind of item looks at no other members than its own. -/
theorem checkKind_agree {tag : String} (h : AgreeOn names ms ns)
    (hfields : (kindFields tag).map (·.name) ⊆ names) (path : String) :
    checkKind path (.object ms) tag = checkKind path (.object ns) tag := by
  fun_cases kindFields tag with
  | case1 => exact checked_agree h hfields path
  | case2 | case3 =>
    have htext := requireField_agree h (hfields (show "text" ∈ textFields.map _ by decide)) path
    have hfields : textFields.map (·.name) ⊆ names := hfields
    rw [checkKind, checkKind, htext, checked_agree h hfields path]
  | case4 | case5 =>
    have hurl := requireField_agree h (hfields (show "imageUrl" ∈ imageFields.map _ by decide)) path
    have hfields : imageFields.map (·.name) ⊆ names := hfields
    rw [checkKind, checkKind, hurl, checked_agree h hfields path]
  | case6 => exact checked_agree h hfields path
  | case7 => simp only [checkKind]

/-- Nor does its reading. -/
theorem readKind_agree {tag : String} (h : AgreeOn names ms ns)
    (hview : viewFields.map (·.name) ⊆ names) (hfields : (kindFields tag).map (·.name) ⊆ names)
    (path : String) : readKind path (.object ms) tag = readKind path (.object ns) tag := by
  have hv := readView_congr (h.sameFields hview)
  have hsame := h.sameFields hfields
  fun_cases kindFields tag with
  | case1 =>
    have hsame : SameFields boxFields _ _ := hsame
    rw [readKind, readKind, hv, readDirection_congr hsame, alignOf_congr hsame (by decide),
      elements_congr hsame (by decide)]
  | case2 | case3 => rw [readKind, readKind, hv, readText_congr hsame]
  | case4 | case5 => rw [readKind, readKind, hv, readImage_congr hsame]
  | case6 =>
    have hsame : SameFields carouselFields _ _ := hsame
    rw [readKind, readKind, hv, elements_congr hsame (by decide), length?_same hsame (by decide)]
  | case7 => simp only [readKind]

/-- An item does not depend on members of its object that are not read. -/
theorem readItem_agree (h : AgreeOn (itemNames ms) ms ns) (path : String) :
    readItem (.object ms) path = readItem (.object ns) path := by
  refine readItem_congr (itemTag_agree h List.mem_cons_self path) fun tag htag => ?_
  have hnames : itemNames ms = "type" :: (viewFields ++ kindFields tag).map (·.name) := by
    have hlook : Json.lookUp "type" ms = some (.string tag) := get?_of_itemTag htag
    rw [itemNames, hlook]
  have hview : viewFields.map (·.name) ⊆ itemNames ms := by
    rw [hnames, List.map_append]
    exact fun name hname => List.mem_cons_of_mem _ (List.mem_append_left _ hname)
  have hfields : (kindFields tag).map (·.name) ⊆ itemNames ms := by
    rw [hnames, List.map_append]
    exact fun name hname => List.mem_cons_of_mem _ (List.mem_append_right _ hname)
  exact ⟨checked_agree h hview path, checkKind_agree h hfields path,
    readKind_agree h hview hfields path⟩

end Members

/-! ## Parts of an item -/

/-- The objects that an item's object may hold. -/
inductive ItemPart where
  | action
  | viewStyle
  | margin
  | padding
  | width
  | height
  | align
  | textStyle
  | imageStyle
  | metaData

namespace ItemPart

/-- The key of the item's object under which the part is found. -/
def key : ItemPart → String
  | .action => "action"
  | .viewStyle | .margin | .padding => "viewStyle"
  | .width => "width"
  | .height => "height"
  | .align => "align"
  | .textStyle => "textStyle"
  | .imageStyle => "imageStyle"
  | .metaData => "metaData"

/-- The records that lead from there to the part. -/
def way : ItemPart → RecordWay
  | .margin => [(viewStyleFields, "margin")]
  | .padding => [(viewStyleFields, "padding")]
  | _ => []

/-- The fields of the part. -/
def fields : ItemPart → List Field
  | .action => actionFields
  | .viewStyle => viewStyleFields
  | .margin | .padding => insetsFields
  | .width | .height => sizeFields
  | .align => alignFields
  | .textStyle => textStyleFields
  | .imageStyle => imageStyleFields
  | .metaData => metaDataFields

theorem key_ne (p : ItemPart) {key : String}
    (h : key ∈ ["type", "text", "imageUrl", "items", "layout", "spacing"]) : p.key ≠ key := by
  rintro rfl
  cases p <;> exact absurd h (by decide)

end ItemPart

theorem readView_action (d : StyleDefaults) (hole : ObjectHole "action") {x : Json}
    (hx : x.isNull = false) (y : Json) : readView d (hole.fill x) =
      { readView d (hole.fill y) with action := some (readAction x) } := by
  simp [readView, hole.field?_fill_of_not_null _ hx, hole.field?_fill_of_ne _ x y]

theorem readText_align (lines : Nat) (hole : ObjectHole "align") {x : Json}
    (hx : x.isNull = false) (view : View) (y : Json) : readText view lines (hole.fill x) =
      { readText view lines (hole.fill y) with align := readAlign x } := by
  simp [readText, integer?, Json.stringField?, alignOf, hole.field?_fill_of_not_null _ hx,
    hole.field?_fill_of_ne _ x y]

theorem readImage_style (hole : ObjectHole "imageStyle") {x y : Json} (hx : x.isNull = false)
    (hy : y.isNull = false) (h : SameFields imageStyleFields x y) (view : View) :
    readImage view (hole.fill x) = readImage view (hole.fill y) := by
  simp (disch := decide) [readImage, Json.stringField?, hole.field?_fill_of_not_null _ hx,
    hole.field?_fill_of_not_null _ hy, h.field?_eq, hole.field?_fill_of_ne _ x y]

theorem alignOf_fill_of_not_null (hole : ObjectHole "align") {x : Json} (hx : x.isNull = false)
    (fields : List Field) : alignOf fields (hole.fill x) = readAlign x := by
  rw [alignOf, hole.field?_fill_of_not_null fields hx]
  rfl

/-- What is put together from equal parts is equal. -/
theorem eq_of_put {α β : Type} {a b : α} {x y : β} (put : β → α) (h : x = y) (ha : a = put x)
    (hb : b = put y) : a = b := by
  rw [ha, hb, h]

section Parts

variable (p : ItemPart) (object : ObjectHole p.key) (records : WayHole p.way) {v w : Json}

/-- No record of an item tells parts apart that are no different. -/
theorem checksAlike_part (h : SameRecord p.fields v w) {fields : List Field}
    (hfields : fields ∈ itemRecords) :
    ChecksAlike fields p.key (records.fill v) (records.fill w) := by
  simp only [itemRecords, List.mem_cons, List.not_mem_nil, or_false] at hfields
  cases p with
  | margin | padding =>
    obtain _ | ⟨style, _ | _⟩ := records
    rcases hfields with rfl | rfl | rfl | rfl | rfl <;>
      first | exact .unknown rfl _ _ | exact .record rfl style (.sameRecord rfl h)
  | _ =>
    obtain _ | _ := records
    rcases hfields with rfl | rfl | rfl | rfl | rfl <;>
      first | exact .unknown rfl _ _ | exact .sameRecord rfl h

theorem readView_part (h : SameRecord p.fields v w) (d : StyleDefaults) :
    readView d (object.fill (records.fill v)) = readView d (object.fill (records.fill w)) := by
  have hv := h.isNull_left
  have hw := h.isNull_right
  let blank : View := readView d (object.fill .null)
  cases p with
  | action =>
    obtain _ | _ := records
    exact eq_of_put (fun a => { blank with action := some a }) (readAction_congr h.same)
      (readView_action d object hv .null) (readView_action d object hw .null)
  | viewStyle =>
    obtain _ | _ := records
    exact eq_of_put (fun style => { blank with style }) (readViewStyle_congr h.same d)
      (readView_style d object hv .null) (readView_style d object hw .null)
  | margin =>
    obtain _ | ⟨style, _ | _⟩ := records
    have hstyle := eq_of_put (fun margin => { readViewStyle d (style.fill .null) with margin })
      (readInsets_congr h.same) (readViewStyle_margin d style hv .null)
      (readViewStyle_margin d style hw .null)
    exact eq_of_put (fun style => { blank with style }) hstyle
      (readView_style d object (style.isNull_fill v) .null)
      (readView_style d object (style.isNull_fill w) .null)
  | padding =>
    obtain _ | ⟨style, _ | _⟩ := records
    have hstyle := eq_of_put (fun padding => { readViewStyle d (style.fill .null) with padding })
      (readInsets_congr h.same) (readViewStyle_padding d style hv .null)
      (readViewStyle_padding d style hw .null)
    exact eq_of_put (fun style => { blank with style }) hstyle
      (readView_style d object (style.isNull_fill v) .null)
      (readView_style d object (style.isNull_fill w) .null)
  | width =>
    obtain _ | _ := records
    exact eq_of_put (fun width => { blank with width }) (readSize_congr h.same _)
      (readView_width d object hv .null) (readView_width d object hw .null)
  | height =>
    obtain _ | _ := records
    exact eq_of_put (fun height => { blank with height }) (readSize_congr h.same _)
      (readView_height d object hv .null) (readView_height d object hw .null)
  | align | textStyle | imageStyle | metaData => exact readView_fill_of_ne d object (by decide) _ _

theorem readText_part (h : SameRecord p.fields v w) (view : View) (lines : Nat) :
    readText view lines (object.fill (records.fill v)) =
      readText view lines (object.fill (records.fill w)) := by
  have hv := h.isNull_left
  have hw := h.isNull_right
  let blank : TextItem := readText view lines (object.fill .null)
  cases p with
  | align =>
    obtain _ | _ := records
    exact eq_of_put (fun align => { blank with align }) (readAlign_congr h.same)
      (readText_align lines object hv view .null) (readText_align lines object hw view .null)
  | textStyle =>
    obtain _ | _ := records
    exact eq_of_put (fun style => { blank with style }) (readTextStyle_congr h.same)
      (readText_style lines object hv view .null) (readText_style lines object hw view .null)
  | _ => exact readText_fill_of_ne lines object (by decide) view _ _

theorem readImage_part (h : SameRecord p.fields v w) (view : View) :
    readImage view (object.fill (records.fill v)) =
      readImage view (object.fill (records.fill w)) := by
  have hv := h.isNull_left
  have hw := h.isNull_right
  let blank : ImageItem := readImage view (object.fill .null)
  cases p with
  | imageStyle =>
    obtain _ | _ := records
    exact readImage_style object hv hw h.same view
  | metaData =>
    obtain _ | _ := records
    exact eq_of_put (fun pixels => { blank with pixels }) (readPixels_congr h.same)
      (readImage_pixels object hv view .null) (readImage_pixels object hw view .null)
  | _ => exact readImage_fill_of_ne object (by decide) view _ _

theorem alignOf_part (h : SameRecord p.fields v w) :
    alignOf boxFields (object.fill (records.fill v)) =
      alignOf boxFields (object.fill (records.fill w)) := by
  cases p with
  | align =>
    obtain _ | _ := records
    exact eq_of_put id (readAlign_congr h.same)
      (alignOf_fill_of_not_null object h.isNull_left boxFields)
      (alignOf_fill_of_not_null object h.isNull_right boxFields)
  | _ => exact alignOf_fill object (by decide) boxFields _ _

/-- An item does not depend on what is not read of its parts. -/
theorem readItem_part (h : SameRecord p.fields v w) (path : String) :
    readItem (object.fill (records.fill v)) path =
      readItem (object.fill (records.fill w)) path := by
  have hchecked : ∀ fields ∈ itemRecords, checked path fields (object.fill (records.fill v)) =
      checked path fields (object.fill (records.fill w)) :=
    fun fields hfields => checked_fill object (checksAlike_part p records h hfields) path
  have htext := requireField_fill object (p.key_ne (show "text" ∈ _ by decide)) path
    (records.fill v) (records.fill w)
  have hurl := requireField_fill object (p.key_ne (show "imageUrl" ∈ _ by decide)) path
    (records.fill v) (records.fill w)
  have helements := elements_fill object (p.key_ne (show "items" ∈ _ by decide))
  have hspacing := integer?_object_of_ne object carouselFields (records.fill v) (records.fill w)
    (p.key_ne (show "spacing" ∈ _ by decide))
  refine readItem_congr (itemTag_fill object (p.key_ne (by decide)) path _ _) fun tag _ =>
    ⟨hchecked viewFields (by simp [itemRecords]), ?_, ?_⟩
  · unfold checkKind
    split
    · exact hchecked boxFields (by simp [itemRecords])
    · rw [htext, hchecked textFields (by simp [itemRecords])]
    · rw [htext, hchecked textFields (by simp [itemRecords])]
    · rw [hurl, hchecked imageFields (by simp [itemRecords])]
    · rw [hurl, hchecked imageFields (by simp [itemRecords])]
    · exact hchecked carouselFields (by simp [itemRecords])
    · rfl
  · unfold readKind
    split
    · rw [helements boxFields _ (records.fill w), readView_part p object records h,
        readDirection_fill object (p.key_ne (by decide)) _ (records.fill w),
        alignOf_part p object records h]
    · rw [readView_part p object records h, readText_part p object records h]
    · rw [readView_part p object records h, readText_part p object records h]
    · rw [readView_part p object records h, readImage_part p object records h]
    · rw [readView_part p object records h, readImage_part p object records h]
    · rw [helements carouselFields _ (records.fill w), readView_part p object records h, length?,
        length?, hspacing]
    · rfl

end Parts

/-! ## Templates -/

/-- Elements are read alike if the one in which they differ is. -/
theorem readEach_congr {α : Type} {read : Json → String → Except TemplateFault α} {v w : Json}
    (h : ∀ path, read v path = read w path) (before after : List Json) (parent : String)
    (index : Nat) : readEach read parent (before ++ v :: after) index =
      readEach read parent (before ++ w :: after) index := by
  induction before generalizing index with
  | nil => rw [List.nil_append, List.nil_append, readEach, readEach, h]
  | cons j rest ih => rw [List.cons_append, List.cons_append, readEach, readEach, ih]

mutual

/-- A template document but for the members of one object in it: of the template's own, of its body,
or of an object of an item. -/
inductive TemplateSpot where
  | own
  | body (document : ObjectHole "body")
  | item (document : ObjectHole "body") (body : RecordHole bodyFields "items")
      (before : List Json) (item : ItemSpot) (after : List Json)

/-- An item's object but for the members of one object in it: its own, or one of its parts, or an
object of an item in a box or of a page of a carousel. -/
inductive ItemSpot where
  | own
  | part (p : ItemPart) (object : ObjectHole p.key) (records : WayHole p.way)
  | child (box : ObjectHole "items") (tag : (box.fill .null).get? "type" = some (.string "box"))
      (before : List Json) (item : ItemSpot) (after : List Json)
  | page (carousel : ObjectHole "items")
      (tag : (carousel.fill .null).get? "type" = some (.string "carouselView"))
      (before : List Json) (page : TemplateSpot) (after : List Json)

end

mutual

/-- The document with members for the object. -/
def TemplateSpot.fill : TemplateSpot → List (String × Json) → Json
  | .own, ms => .object ms
  | .body document, ms => document.fill (.object ms)
  | .item document body before item after, ms =>
    document.fill (body.fill (.array (before ++ item.fill ms :: after)))

/-- The item's object with members for the object. -/
def ItemSpot.fill : ItemSpot → List (String × Json) → Json
  | .own, ms => .object ms
  | .part _ object records, ms => object.fill (records.fill (.object ms))
  | .child box _ before item after, ms => box.fill (.array (before ++ item.fill ms :: after))
  | .page carousel _ before page after, ms =>
    carousel.fill (.array (before ++ page.fill ms :: after))

end

mutual

/-- The names that are read of the object, which may depend on its members. -/
def TemplateSpot.names : TemplateSpot → List (String × Json) → List String
  | .own, _ => templateFields.map (·.name)
  | .body _, _ => bodyFields.map (·.name)
  | .item _ _ _ item _, ms => item.names ms

/-- The names that are read of the object, which may depend on its members. -/
def ItemSpot.names : ItemSpot → List (String × Json) → List String
  | .own, ms => itemNames ms
  | .part p _ _, _ => p.fields.map (·.name)
  | .child _ _ _ item _, ms => item.names ms
  | .page _ _ _ page _, ms => page.names ms

end

/-- A template does not depend on members of its object that are not read. -/
theorem readTemplate_agree {ms ns : List (String × Json)}
    (h : AgreeOn (templateFields.map (·.name)) ms ns) (path : String) :
    readTemplate (.object ms) path = readTemplate (.object ns) path := by
  have hchecked := checked_agree h (List.Subset.refl _) path
  have hbody : body? (.object ms) = body? (.object ns) := by
    rw [body?, body?, h.get?_eq (by decide)]
  have hversion := integer_same (h.sameFields (List.Subset.refl _)) (show "version" ∈ _ by decide)
  rw [readTemplate_eq, readTemplate_eq, checkTemplate, checkTemplate, hchecked, hbody, hversion]

/-! By recursion on the spot: the object itself stands at its end, and each step outward puts what is
read alike among other elements, where nothing but this element is read of it. -/

mutual

/-- A template is read alike whatever the members of the object that are not read. -/
theorem TemplateSpot.readTemplate_eq : ∀ (s : TemplateSpot) (path : String)
    {ms ns : List (String × Json)}, AgreeOn (s.names ms) ms ns →
      readTemplate (s.fill ms) path = readTemplate (s.fill ns) path
  | .own, path, _, _, h => readTemplate_agree h path
  | .body document, path, ms, ns, h => by
    have hrecord : SameRecord bodyFields (.object ms) (.object ns) := AgreeOn.sameRecord h
    have hchecks : ChecksAlike templateFields "body" (.object ms) (.object ns) :=
      .sameRecord rfl hrecord
    have hbody : ∀ members, Json.field? templateFields (document.fill (.object members)) "body" =
        some (.object members) := fun _ => document.field?_fill_of_not_null _ rfl
    have hversion := integer?_object_of_ne document templateFields (.object ms) (.object ns)
      (show "body" ≠ "version" by decide)
    have helements : bodyElements (.object ms) = bodyElements (.object ns) :=
      elements_congr hrecord.same (by decide)
    simp only [TemplateSpot.fill, readTemplate_fill, checked_fill document hchecks path, hbody,
      integer, hversion, helements]
  | .item document body before item after, path, ms, ns, h => by
    have helements : ∀ xs, bodyElements (body.fill (.array xs)) = xs := by
      intro xs
      rw [bodyElements, elements, body.field?_fill_of_not_null rfl]
      rfl
    have hchecks : ∀ xs ys, ChecksAlike templateFields "body" (body.fill (.array xs))
        (body.fill (.array ys)) := fun xs ys => .record rfl body (.array rfl _ _)
    have hbody := fun v => document.field?_fill_of_not_null templateFields (body.isNull_fill v)
    have hversion := fun v w => integer?_object_of_ne document templateFields v w
      (show "body" ≠ "version" by decide)
    have hitems := readEach_congr (fun path => ItemSpot.readItem_eq item path h) before after
    simp only [TemplateSpot.fill, readTemplate_fill, hbody, helements, readItems_eq, hitems,
      checked_fill document (hchecks _ (before ++ item.fill ns :: after)) path, integer,
      hversion _ (body.fill (.array (before ++ item.fill ns :: after)))]

/-- An item is read alike whatever the members of the object that are not read. -/
theorem ItemSpot.readItem_eq : ∀ (s : ItemSpot) (path : String) {ms ns : List (String × Json)},
    AgreeOn (s.names ms) ms ns → readItem (s.fill ms) path = readItem (s.fill ns) path
  | .own, path, _, _, h => readItem_agree h path
  | .part p object records, path, _, _, h => readItem_part p object records h.sameRecord path
  | .child box tag before item after, path, ms, ns, h => by
    have hread := fun v => readItem_box (itemTag_eq box (by decide) tag path v)
    have hitems := readEach_congr (fun path => ItemSpot.readItem_eq item path h) before after
    let filled := Json.array (before ++ item.fill ns :: after)
    have hview : ∀ v, checked path viewFields (box.fill v) = checked path viewFields
        (box.fill filled) := fun v => checked_fill box (.unknown rfl v filled) path
    have hbox : ∀ xs, checked path boxFields (box.fill (.array xs)) = checked path boxFields
        (box.fill filled) := fun xs => checked_fill box (.array rfl xs _) path
    simp only [ItemSpot.fill, hread, elements_fill_array, readItems_eq, hitems, hview, hbox,
      readView_fill_of_ne _ box (by decide) _ filled, readDirection_fill box (by decide) _ filled,
      alignOf_fill box (by decide) _ _ filled, filled]
  | .page carousel tag before page after, path, ms, ns, h => by
    have hread := fun v => readItem_carousel (itemTag_eq carousel (by decide) tag path v)
    have hpages :=
      readEach_congr (fun path => TemplateSpot.readTemplate_eq page path h) before after
    let filled := Json.array (before ++ page.fill ns :: after)
    have hview : ∀ v, checked path viewFields (carousel.fill v) = checked path viewFields
        (carousel.fill filled) := fun v => checked_fill carousel (.unknown rfl v filled) path
    have hcarousel : ∀ xs, checked path carouselFields (carousel.fill (.array xs)) =
        checked path carouselFields (carousel.fill filled) :=
      fun xs => checked_fill carousel (.array rfl xs _) path
    have hspacing := fun v => integer?_object_of_ne carousel carouselFields v filled
      (show "items" ≠ "spacing" by decide)
    simp only [ItemSpot.fill, hread, elements_fill_array, readPages_eq, hpages, hview, hcarousel,
      readView_fill_of_ne _ carousel (by decide) _ filled, length?, hspacing, filled]

end

/-! ## Every object that is read -/

/-- The value of a part of an item. -/
def ItemPart.value? (p : ItemPart) (j : Json) : Option Json :=
  (j.get? p.key).bind (Json.valueAt? p.way)

/-- The objects that a part of a document is read from, with the names that are read of each. -/
inductive Part.Reads : Part → List (String × Json) → List String → Prop
  | template (members : List (String × Json)) (path : String) :
      Reads (.template (.object members) path) members (templateFields.map (·.name))
  | body {j : Json} {path : String} {members : List (String × Json)}
      (h : body? j = some (.object members)) :
      Reads (.template j path) members (bodyFields.map (·.name))
  | item (members : List (String × Json)) (path : String) :
      Reads (.item (.object members) path) members (itemNames members)
  | part {j : Json} {path : String} {members : List (String × Json)} (p : ItemPart)
      (h : p.value? j = some (.object members)) :
      Reads (.item j path) members (p.fields.map (·.name))

/-- Whether a part of a document has a spot for an object with some members, of which some names
are read. -/
def Part.HasSpot (members : List (String × Json)) (names : List String) : Part → Prop
  | .template j _ => ∃ s : TemplateSpot, s.fill members = j ∧ s.names members = names
  | .item j _ => ∃ s : ItemSpot, s.fill members = j ∧ s.names members = names

theorem get?_of_body? {j body : Json} (h : body? j = some body) : j.get? "body" = some body :=
  (Option.filter_eq_some_iff.mp h).1

theorem exists_of_mem_elements {fields : List Field} {j x : Json} {name : String}
    (h : x ∈ elements fields j name) : ∃ before after,
      Json.lookUp name (Json.recordMembers fields j) = some (.array (before ++ x :: after)) := by
  rw [elements] at h
  cases hfield : Json.field? fields j name with
  | none =>
    rw [hfield] at h
    cases h
  | some v =>
    rw [hfield] at h
    have hlook := (Option.filter_eq_some_iff.mp hfield).1
    cases v with
    | array xs =>
      obtain ⟨before, after, rfl⟩ := List.append_of_mem h
      exact ⟨before, after, hlook⟩
    | _ => cases h

/-- The elements of an object with a kind stand in an array under their key. -/
theorem exists_of_mem_elements_of_kind {j x : Json} {tag : String}
    (htag : j.get? "type" = some (.string tag)) (h : x ∈ bodyElements j) :
    ∃ (object : ObjectHole "items") (before after : List Json),
      object.fill (.array (before ++ x :: after)) = j ∧
        (object.fill .null).get? "type" = some (.string tag) := by
  obtain ⟨before, after, hlook⟩ := exists_of_mem_elements h
  cases j with
  | object members =>
    -- The fields of an object go by their names, so its elements are under their key.
    have hitems : (Json.object members).get? "items" = some (.array (before ++ x :: after)) := hlook
    obtain ⟨object, hfill⟩ := ObjectHole.exists_fill hitems
    refine ⟨object, before, after, hfill, ?_⟩
    rw [object.get?_fill_of_ne .null (.array (before ++ x :: after)) (by decide), hfill, htag]
  | _ => cases htag

namespace Part

variable {members : List (String × Json)} {names : List String}

theorem Reads.hasSpot {p : Part} (h : p.Reads members names) : p.HasSpot members names := by
  cases h with
  | template members path => exact ⟨.own, rfl, rfl⟩
  | body h =>
    obtain ⟨document, rfl⟩ := ObjectHole.exists_fill (get?_of_body? h)
    exact ⟨.body document, rfl, rfl⟩
  | item members path => exact ⟨.own, rfl, rfl⟩
  | part p h =>
    obtain ⟨v, hkey, hway⟩ := Option.bind_eq_some_iff.mp h
    obtain ⟨object, rfl⟩ := ObjectHole.exists_fill hkey
    obtain ⟨records, rfl⟩ := WayHole.exists_fill hway
    exact ⟨.part p object records, rfl, rfl⟩

/-- A spot in a part right inside another one is a spot in this one. -/
theorem HasSpot.of_mem_children {p c : Part} (hc : c ∈ p.children) (h : c.HasSpot members names) :
    p.HasSpot members names := by
  cases isChild_of_mem_children hc with
  | ofBody path present element =>
    obtain ⟨s, rfl, hnames⟩ := h
    obtain ⟨before, after, hlook⟩ := exists_of_mem_elements (List.mem_of_getElem? element)
    obtain ⟨record, rfl⟩ := RecordHole.exists_fill hlook
    obtain ⟨document, rfl⟩ := ObjectHole.exists_fill (get?_of_body? present)
    exact ⟨.item document record before s after, rfl, hnames⟩
  | ofBox path tag element =>
    obtain ⟨s, rfl, hnames⟩ := h
    obtain ⟨box, before, after, rfl, hbox⟩ :=
      exists_of_mem_elements_of_kind tag (List.mem_of_getElem? element)
    exact ⟨.child box hbox before s after, rfl, hnames⟩
  | ofCarousel path tag element =>
    obtain ⟨s, rfl, hnames⟩ := h
    obtain ⟨carousel, before, after, rfl, hcarousel⟩ :=
      exists_of_mem_elements_of_kind tag (List.mem_of_getElem? element)
    exact ⟨.page carousel hcarousel before s after, rfl, hnames⟩

theorem HasSpot.of_mem_preorder {p q : Part} (hq : q ∈ p.preorder) (h : q.HasSpot members names) :
    p.HasSpot members names := by
  induction p using Part.induction with
  | step p ih =>
    rw [preorder_eq, List.mem_cons, List.mem_flatMap] at hq
    rcases hq with rfl | ⟨c, hc, hq⟩
    · exact h
    · exact (ih c hc hq).of_mem_children hc

end Part

end TemplateReader

open TemplateReader

/-- Whatever object of a document is read, it makes no difference whether it has a member of a name
that is not read of it, or of what value: the document is the same template, or it has the same
fault. -/
theorem Template.ofJson_unread :
    (∀ (s : TemplateSpot) (before after : List (String × Json)) (name : String) (v w : Json),
      name ∉ s.names (before ++ after) →
        Template.ofJson (s.fill (before ++ (name, v) :: after)) =
          Template.ofJson (s.fill (before ++ after)) ∧
        Template.ofJson (s.fill (before ++ (name, v) :: after)) =
          Template.ofJson (s.fill (before ++ (name, w) :: after))) ∧
    ∀ (j : Json), ∀ p ∈ (Part.template j "template").preorder, ∀ members names,
      p.Reads members names → ∃ s : TemplateSpot, s.fill members = j ∧ s.names members = names := by
  refine ⟨fun s before after name v w hname => ?_, fun j p hp members names hreads => ?_⟩
  · have hwithout : ∀ x, Template.ofJson (s.fill (before ++ (name, x) :: after)) =
        Template.ofJson (s.fill (before ++ after)) := fun x =>
      (s.readTemplate_eq "template" (Json.agreeOn_insert hname before after x).symm).symm
    exact ⟨hwithout v, (hwithout v).trans (hwithout w).symm⟩
  · exact hreads.hasSpot.of_mem_preorder hp

/-- A text in a box may have the address of an image, even one that is no text. -/
theorem Template.ofJson_unread_of_boxed_text :
    ∃ (members : List (String × Json)) (document : Json) (s : TemplateSpot),
      members = [("type", .string "text"), ("text", .string "Hi")] ∧
      document = .object [("body", .object [("items", .array [.object
        [("type", .string "box"), ("items", .array [.object members])]])])] ∧
      s.fill members = document ∧ "imageUrl" ∉ s.names members ∧
      Template.ofJson (s.fill (members ++ [("imageUrl", .bool true)])) =
        Template.ofJson document := by
  let members : List (String × Json) := [("type", .string "text"), ("text", .string "Hi")]
  let box : Json := .object [("type", .string "box"), ("items", .array [.object members])]
  let document : Json := .object [("body", .object [("items", .array [box])])]
  let root : Part := .template document "template"
  let outer : Part := .item box "template.body.items[0]"
  let inner : Part := .item (.object members) "template.body.items[0].items[0]"
  have hroot : root.children = [outer] := rfl
  have houter : outer.children = [inner] := rfl
  have hmem : inner ∈ root.preorder := by
    rw [Part.preorder_eq, hroot, List.flatMap_singleton, Part.preorder_eq, houter,
      List.flatMap_singleton, Part.preorder_eq]
    simp
  obtain ⟨hunread, hspot⟩ := Template.ofJson_unread
  obtain ⟨s, hfill, hnames⟩ := hspot document inner hmem members _ (.item members _)
  have hname : "imageUrl" ∉ s.names members := by
    rw [hnames]
    decide
  refine ⟨members, document, s, rfl, rfl, hfill, hname, ?_⟩
  have hsame := (hunread s members [] "imageUrl" (.bool true) .null hname).1
  exact hsame.trans (congrArg Template.ofJson hfill)

end MessageCard
