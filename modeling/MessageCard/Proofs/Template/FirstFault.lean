import Mathlib.Data.List.Forall2
import Mathlib.Data.List.Induction
import MessageCard.Proofs.Template.Reading
import MessageCard.Proofs.Text.Brackets

/-!
# The first fault of a document

A document is made of templates and items, each of which has an object of its own and a path. They
are read as they are met: one before the ones in it, and these from first to last. Each is checked
on its own, so the whole document is a template if every one of them passes, and otherwise its fault
is that of the first one that does not.
-/
namespace MessageCard

open Json (Field)

section Checks

variable {ε α β : Type} {check : α → Except ε Unit}

/-- Checks one after the other succeed if all of them do. -/
theorem forM_eq_ok_iff {xs : List α} : forM xs check = .ok () ↔ ∀ x ∈ xs, check x = .ok () := by
  induction xs with
  | nil => simp [pure, Except.pure]
  | cons x rest ih =>
    rw [List.forM_cons, bind_eq_ok_iff, List.forall_mem_cons, ← ih]
    exact ⟨fun ⟨_, hx, hrest⟩ => ⟨hx, hrest⟩, fun ⟨hx, hrest⟩ => ⟨(), hx, hrest⟩⟩

/-- Checks one after the other fail with the error of the first one that does. -/
theorem forM_eq_error_iff {xs : List α} {e : ε} : forM xs check = .error e ↔
    ∃ before x after, xs = before ++ x :: after ∧ (∀ y ∈ before, check y = .ok ()) ∧
      check x = .error e := by
  induction xs with
  | nil => simp [pure, Except.pure]
  | cons x rest ih =>
    rw [List.forM_cons]
    cases hx : check x with
    | error f =>
      constructor
      · rintro ⟨⟩
        exact ⟨[], x, rest, rfl, by simp, hx⟩
      · rintro ⟨before, y, after, heq, hbefore, hy⟩
        cases before with
        | nil =>
          cases heq
          exact hx.symm.trans hy
        | cons z before =>
          cases heq
          cases hx.symm.trans (hbefore x List.mem_cons_self)
    | ok _ =>
      show forM rest check = .error e ↔ _
      rw [ih]
      constructor
      · rintro ⟨before, y, after, rfl, hbefore, hy⟩
        exact ⟨x :: before, y, after, rfl, by simpa [hx] using hbefore, hy⟩
      · rintro ⟨before, y, after, heq, hbefore, hy⟩
        cases before with
        | nil =>
          cases heq
          cases hx.symm.trans hy
        | cons z before =>
          cases heq
          exact ⟨before, y, after, rfl, fun w hw => hbefore w (List.mem_cons_of_mem _ hw), hy⟩

theorem forM_congr {other : α → Except ε Unit} {xs : List α} (h : ∀ x ∈ xs, check x = other x) :
    forM xs check = forM xs other := by
  induction xs with
  | nil => rfl
  | cons x rest ih =>
    rw [List.forM_cons, List.forM_cons, h x List.mem_cons_self,
      ih fun y hy => h y (List.mem_cons_of_mem _ hy)]

theorem forM_flatMap {xs : List β} {f : β → List α} :
    forM (xs.flatMap f) check = forM xs fun x => forM (f x) check := by
  induction xs with
  | nil => rfl
  | cons x rest ih => rw [List.flatMap_cons, List.forM_append, List.forM_cons, ih]

end Checks

/-- The path that a fault names. -/
def TemplateFault.path? : TemplateFault → Option String
  | .missingField _ path | .unknownItemType _ path | .invalidItem path _ => some path
  | _ => none

namespace TemplateReader

/-! ## The parts of a document -/

/-- A value where a template or an item belongs, with its path. -/
inductive Part where
  | template (value : Json) (path : String)
  | item (value : Json) (path : String)

/-- Values as parts, the first of them at an index. -/
def placed (make : Json → String → Part) (parent : String) : List Json → Nat → List Part
  | [], _ => []
  | j :: rest, index => make j (itemPath parent index) :: placed make parent rest (index + 1)

namespace Part

def value : Part → Json
  | .template j _ => j
  | .item j _ => j

def path : Part → String
  | .template _ path => path
  | .item _ path => path

/-- What is demanded of the part's own object. -/
def check : Part → Except TemplateFault Unit
  | .template j path => checkTemplate path j
  | .item j path => (checkItem path j).map fun _ => ()

/-- The parts right inside: the items of a body or of a box, and the pages of a carousel. -/
def children : Part → List Part
  | .template j path =>
    match body? j with
    | some body => placed .item (path ++ ".body") (bodyElements body) 0
    | none => []
  | .item j path =>
    match j.get? "type" with
    | some (.string "box") => placed .item path (elements boxFields j "items") 0
    | some (.string "carouselView") => placed .template path (elements carouselFields j "items") 0
    | _ => []

end Part

theorem exists_of_mem_placed {make : Json → String → Part} {parent : String} {js : List Json}
    {index : Nat} {p : Part} (h : p ∈ placed make parent js index) :
    ∃ i j, js[i]? = some j ∧ p = make j (itemPath parent (index + i)) := by
  induction js generalizing index with
  | nil => cases h
  | cons j rest ih =>
    rcases List.mem_cons.mp h with rfl | h
    · exact ⟨0, j, rfl, rfl⟩
    · obtain ⟨i, k, hk, rfl⟩ := ih h
      refine ⟨i + 1, k, hk, ?_⟩
      rw [Nat.add_assoc, Nat.add_comm 1 i]

/-- The elements of a record that is an object do not depend on its other fields. -/
theorem elements_object {j v : Json} {name : String} (h : j.get? name = some v)
    (fields : List Field) : elements fields j "items" = bodyElements j := by
  cases j with
  | object members => rfl
  | _ => cases h

namespace Part

/-- What a part can be right inside of: an item of a body or of a box, or a page of a carousel. -/
inductive IsChild : Part → Part → Prop
  | ofBody {j body k : Json} {i : Nat} (path : String) (present : body? j = some body)
      (element : (bodyElements body)[i]? = some k) :
      IsChild (.item k (itemPath (path ++ ".body") i)) (.template j path)
  | ofBox {j k : Json} {i : Nat} (path : String) (tag : j.get? "type" = some (.string "box"))
      (element : (bodyElements j)[i]? = some k) :
      IsChild (.item k (itemPath path i)) (.item j path)
  | ofCarousel {j k : Json} {i : Nat} (path : String)
      (tag : j.get? "type" = some (.string "carouselView"))
      (element : (bodyElements j)[i]? = some k) :
      IsChild (.template k (itemPath path i)) (.item j path)

theorem isChild_of_mem_children {c p : Part} (h : c ∈ p.children) : c.IsChild p := by
  cases p with
  | template j path =>
    simp only [children] at h
    split at h
    case h_1 body present =>
      obtain ⟨i, k, hk, rfl⟩ := exists_of_mem_placed h
      rw [Nat.zero_add]
      exact .ofBody path present hk
    case h_2 => cases h
  | item j path =>
    simp only [children] at h
    split at h
    case h_1 tag =>
      rw [elements_object tag] at h
      obtain ⟨i, k, hk, rfl⟩ := exists_of_mem_placed h
      rw [Nat.zero_add]
      exact .ofBox path tag hk
    case h_2 tag =>
      rw [elements_object tag] at h
      obtain ⟨i, k, hk, rfl⟩ := exists_of_mem_placed h
      rw [Nat.zero_add]
      exact .ofCarousel path tag hk
    case h_3 => cases h

/-- A part is smaller than the one that it is in. -/
theorem sizeOf_value_lt {p c : Part} (h : c ∈ p.children) : sizeOf c.value < sizeOf p.value := by
  have helement : ∀ {j k : Json} {i : Nat}, (bodyElements j)[i]? = some k →
      sizeOf k < sizeOf j := fun hk =>
    Nat.lt_of_lt_of_le (List.sizeOf_lt_of_mem (List.mem_of_getElem? hk))
      (sizeOf_elements_le bodyFields _ "items")
  cases isChild_of_mem_children h with
  | ofBody path present element =>
    exact Nat.lt_trans (helement element) (sizeOf_body?_lt present)
  | ofBox path tag element => exact helement element
  | ofCarousel path tag element => exact helement element

/-- The part and all parts in it, each before those in it, and these from first to last. -/
def preorder (p : Part) : List Part :=
  p :: p.children.attach.flatMap fun c => c.1.preorder
  termination_by sizeOf p.value
  decreasing_by exact sizeOf_value_lt c.2

theorem preorder_eq (p : Part) : p.preorder = p :: p.children.flatMap preorder := by
  rw [preorder]
  simp

/-- What holds of a part if it holds of those in it holds of all parts. -/
theorem induction {motive : Part → Prop}
    (step : ∀ p : Part, (∀ c ∈ p.children, motive c) → motive p) (p : Part) : motive p :=
  step p fun c hc =>
    have := sizeOf_value_lt hc
    induction step c
  termination_by sizeOf p.value

/-- Whether a part can be read. -/
def read : Part → Except TemplateFault Unit
  | .template j path => (readTemplate j path).map fun _ => ()
  | .item j path => (readItem j path).map fun _ => ()

end Part

/-! ## Reading in order -/

/-- Elements can be read if each of them can, one after the other. -/
theorem map_readEach {α : Type} {read : Json → String → Except TemplateFault α}
    {make : Json → String → Part}
    (hmake : ∀ j path, (make j path).read = (read j path).map fun _ => ()) (parent : String)
    (js : List Json) (index : Nat) : ((readEach read parent js index).map fun _ => ()) =
      forM (placed make parent js index) Part.read := by
  induction js generalizing index with
  | nil => rfl
  | cons j rest ih =>
    rw [readEach, placed, List.forM_cons, hmake, ← ih]
    cases read j (itemPath parent index) with
    | error e => rfl
    | ok a => cases readEach read parent rest (index + 1) <;> rfl

namespace Part

/-- A part is checked, and then the parts in it are read. -/
theorem read_eq (p : Part) : p.read = (do p.check; forM p.children read) := by
  have hitem : ∀ j path, (Part.item j path).read = (readItem j path).map fun _ => () :=
    fun _ _ => rfl
  have htemplate : ∀ j path, (Part.template j path).read = (readTemplate j path).map fun _ => () :=
    fun _ _ => rfl
  cases p with
  | template j path =>
    rw [read, readTemplate_eq, check, children]
    cases checkTemplate path j with
    | error e => rfl
    | ok _ =>
      cases body? j with
      | none => rfl
      | some body =>
        have hitems := map_readEach hitem (path ++ ".body") (bodyElements body) 0
        simp only [← hitems, readItems_eq]
        cases readEach readItem (path ++ ".body") (bodyElements body) 0 <;> rfl
  | item j path =>
    rw [read, readItem_eq, check]
    cases hcheck : checkItem path j with
    | error e => rfl
    | ok tag =>
      obtain ⟨htag, hkind⟩ := kind_of_checkItem hcheck
      simp only [itemKinds, List.mem_cons, List.not_mem_nil, or_false] at hkind
      rw [children, htag]
      rcases hkind with rfl | rfl | rfl | rfl | rfl | rfl
      · have hitems := map_readEach hitem path (elements boxFields j "items") 0
        show (readKind path j "box").map _ = forM (placed .item path _ 0) read
        rw [← hitems, readKind, readItems_eq]
        cases readEach readItem path (elements boxFields j "items") 0 <;> rfl
      · rfl
      · rfl
      · rfl
      · rfl
      · have hpages := map_readEach htemplate path (elements carouselFields j "items") 0
        show (readKind path j "carouselView").map _ = forM (placed .template path _ 0) read
        rw [← hpages, readKind, readPages_eq]
        cases readEach readTemplate path (elements carouselFields j "items") 0 <;> rfl

/-- A part can be read if it and all parts in it pass their checks, in order. -/
theorem read_eq_forM (p : Part) : p.read = forM p.preorder check := by
  induction p using Part.induction with
  | step p ih =>
    rw [read_eq, preorder_eq, List.forM_cons, forM_flatMap, forM_congr ih]

end Part

/-! ## Paths -/

/-- A step of a path. -/
inductive PathStep where
  | body
  | item (index : Nat)

namespace PathStep

/-- The path with one more step. -/
def after (path : String) : PathStep → String
  | .body => path ++ ".body"
  | .item i => itemPath path i

/-- Where the step leads from a value: to its body, or to an element of its `items`, which stand
first in a body that is an array. -/
def into (j : Json) : PathStep → Option Json
  | .body => body? j
  | .item i => (bodyElements j)[i]?

/-- The last character of a path that ends with the step. -/
def ending : PathStep → Char
  | .body => 'y'
  | .item _ => ']'

theorem getLast?_after (path : String) (s : PathStep) :
    (s.after path).toList.getLast? = some s.ending := by
  cases s with
  | body =>
    have hbody : ".body".toList = ".bod".toList ++ ['y'] := rfl
    rw [after, String.toList_append, hbody, ← List.append_assoc]
    exact List.getLast?_concat
  | item i =>
    rw [after, itemPath, String.toList_append]
    exact List.getLast?_concat

theorem after_inj {p q : String} {s t : PathStep} (h : s.after p = t.after q) :
    p = q ∧ s = t := by
  have hending : s.ending = t.ending := by
    have hlast := congrArg (·.toList.getLast?) h
    simpa [getLast?_after] using hlast
  cases s with
  | body =>
    cases t with
    | body => exact ⟨(String.append_left_inj _).mp h, rfl⟩
    | item j => exact absurd hending (show 'y' ≠ ']' by decide)
  | item i =>
    cases t with
    | body => exact absurd hending (show ']' ≠ 'y' by decide)
    | item j =>
      obtain ⟨rfl, rfl⟩ := element_path_inj.mp h
      exact ⟨rfl, rfl⟩

end PathStep

/-- The path after some steps down. -/
def pathAlong (start : String) (steps : List PathStep) : String :=
  steps.foldl (fun path s => s.after path) start

theorem pathAlong_append (start : String) (steps more : List PathStep) :
    pathAlong start (steps ++ more) = pathAlong (pathAlong start steps) more :=
  List.foldl_append

theorem pathAlong_concat (start : String) (steps : List PathStep) (s : PathStep) :
    pathAlong start (steps ++ [s]) = s.after (pathAlong start steps) :=
  pathAlong_append start steps [s]

/-- Paths from the root of a document are the same only for the same steps. -/
theorem pathAlong_injective : Function.Injective (pathAlong "template") := by
  have hroot : "template".toList.getLast? = some 'e' := rfl
  have hne : ∀ steps s, pathAlong "template" (steps ++ [s]) ≠ "template" := by
    intro steps s h
    have hlast := congrArg (·.toList.getLast?) h
    simp only [pathAlong_concat, PathStep.getLast?_after, hroot, Option.some.injEq] at hlast
    cases s with
    | body => exact absurd hlast (show 'y' ≠ 'e' by decide)
    | item i => exact absurd hlast (show ']' ≠ 'e' by decide)
  intro steps
  induction steps using List.reverseRecOn with
  | nil =>
    intro other h
    rcases List.eq_nil_or_concat' other with rfl | ⟨other, t, rfl⟩
    · rfl
    · exact absurd h.symm (hne other t)
  | append_singleton steps s ih =>
    intro other h
    rcases List.eq_nil_or_concat' other with rfl | ⟨other, t, rfl⟩
    · exact absurd h (hne steps s)
    · simp only [pathAlong_concat] at h
      obtain ⟨hpath, rfl⟩ := PathStep.after_inj h
      rw [ih hpath]

/-- Where some steps lead from a value. -/
def follow : List PathStep → Json → Option Json
  | [], j => some j
  | s :: rest, j => (s.into j).bind (follow rest)

theorem follow_append (steps more : List PathStep) (j : Json) :
    follow (steps ++ more) j = (follow steps j).bind (follow more) := by
  induction steps generalizing j with
  | nil => rfl
  | cons s rest ih =>
    rw [List.cons_append, follow, follow]
    cases s.into j with
    | none => rfl
    | some k => exact ih k

namespace Part

/-- A part in another one is some steps below it, which its path says. -/
def IsBelow (c p : Part) : Prop :=
  ∃ steps, c.path = pathAlong p.path steps ∧ follow steps p.value = some c.value

theorem isBelow_self (p : Part) : p.IsBelow p := ⟨[], rfl, rfl⟩

theorem IsBelow.trans {a b c : Part} (hab : a.IsBelow b) (hbc : b.IsBelow c) : a.IsBelow c := by
  obtain ⟨steps, hpath, hvalue⟩ := hbc
  obtain ⟨more, hmore, hlast⟩ := hab
  refine ⟨steps ++ more, ?_, ?_⟩
  · rw [pathAlong_append, ← hpath, hmore]
  · rw [follow_append, hvalue]
    exact hlast

theorem isBelow_of_mem_children {c p : Part} (h : c ∈ p.children) : c.IsBelow p := by
  cases isChild_of_mem_children h with
  | @ofBody j body k i path present element =>
    refine ⟨[.body, .item i], rfl, ?_⟩
    simp [follow, PathStep.into, value, present, element]
  | @ofBox j k i path tag element | @ofCarousel j k i path tag element =>
    refine ⟨[.item i], rfl, ?_⟩
    simp [follow, PathStep.into, value, element]

theorem isBelow_of_mem_preorder {p q : Part} (h : q ∈ p.preorder) : q.IsBelow p := by
  induction p using Part.induction with
  | step p ih =>
    rw [preorder_eq, List.mem_cons, List.mem_flatMap] at h
    rcases h with rfl | ⟨c, hc, hq⟩
    · exact q.isBelow_self
    · exact (ih c hc hq).trans (isBelow_of_mem_children hc)

end Part

/-! ## Faults -/

section Faults

variable {α β : Type} {path : String}

/-- Whether a reading fails with faults of one path only. -/
def FaultsAt (path : String) (read : Except TemplateFault α) : Prop :=
  ∀ e, read = .error e → e.path? = some path

theorem FaultsAt.ok (path : String) (a : α) : FaultsAt path (.ok a) := fun _ h => by cases h

theorem FaultsAt.bind {read : Except TemplateFault α} {k : α → Except TemplateFault β}
    (hread : FaultsAt path read) (hk : ∀ a, FaultsAt path (k a)) : FaultsAt path (read >>= k) := by
  cases read with
  | error e =>
    intro f h
    cases h
    exact hread e rfl
  | ok a => exact hk a

theorem faultsAt_checked (path : String) (fields : List Field) (j : Json) :
    FaultsAt path (checked path fields j) := by
  intro e h
  unfold checked at h
  split at h <;> cases h
  rfl

theorem faultsAt_requireField (j : Json) (field path : String) :
    FaultsAt path (requireField j field path) := by
  intro e h
  unfold requireField at h
  split at h
  · split at h <;> cases h
    rfl
  · cases h
    rfl

theorem faultsAt_itemTag (j : Json) (path : String) : FaultsAt path (itemTag j path) := by
  intro e h
  unfold itemTag at h
  split at h
  · split at h <;> cases h
    rfl
  · cases h
    rfl

theorem faultsAt_checkKind (path : String) (j : Json) (tag : String) :
    FaultsAt path (checkKind path j tag) := by
  have hchecked := faultsAt_checked path
  unfold checkKind
  split
  · exact hchecked boxFields j
  · exact (faultsAt_requireField j "text" path).bind fun _ => hchecked textFields j
  · exact (faultsAt_requireField j "text" path).bind fun _ => hchecked textFields j
  · exact (faultsAt_requireField j "imageUrl" path).bind fun _ => hchecked imageFields j
  · exact (faultsAt_requireField j "imageUrl" path).bind fun _ => hchecked imageFields j
  · exact hchecked carouselFields j
  · intro e h
    cases h
    rfl

theorem faultsAt_checkItem (path : String) (j : Json) : FaultsAt path (checkItem path j) :=
  (faultsAt_itemTag j path).bind fun tag => (faultsAt_checked path viewFields j).bind fun _ =>
    (faultsAt_checkKind path j tag).bind fun _ => .ok path tag

end Faults

/-- A part's fault names its path, but for a template that is no object. -/
theorem Part.path?_of_check {p : Part} {e : TemplateFault} (h : p.check = .error e) :
    e.path? = some p.path ∨
      e = .notAnObject ∧ ∀ members, p.value ≠ .object members := by
  cases p with
  | template j path =>
    cases j with
    | object members => exact .inl (faultsAt_checked path templateFields _ e h)
    | _ =>
      cases h
      exact .inr ⟨rfl, fun _ h => by cases h⟩
  | item j path =>
    refine .inl (faultsAt_checkItem path j e ?_)
    rw [check] at h
    cases hcheck : checkItem path j with
    | error f =>
      rw [hcheck] at h
      cases h
      rfl
    | ok tag =>
      rw [hcheck] at h
      cases h

/-! ## Trees -/

mutual

/-- Whether a template has the tree of a value: the same items in its body, if there is one. -/
inductive TemplateMirrors : Json → Template → Prop
  | bare {j : Json} {version : Int} (absent : body? j = none) : TemplateMirrors j ⟨version, none⟩
  | full {j body : Json} {version : Int} {items : List Item} (present : body? j = some body)
      (elements : List.Forall₂ ItemMirrors (bodyElements body) items) :
      TemplateMirrors j ⟨version, some items⟩

/-- Whether an item is of the kind that a value says and has the tree of the value. -/
inductive ItemMirrors : Json → Item → Prop
  | box {j : Json} {view : View} {direction : Direction} {items : List Item} {align : Align}
      (tag : j.get? "type" = some (.string "box"))
      (elements : List.Forall₂ ItemMirrors (bodyElements j) items) :
      ItemMirrors j (.box view direction items align)
  | text {j : Json} {isButton : Bool} {t : TextItem}
      (tag : j.get? "type" = some (.string (if isButton then "textButton" else "text"))) :
      ItemMirrors j (.text isButton t)
  | image {j : Json} {isButton : Bool} {i : ImageItem}
      (tag : j.get? "type" = some (.string (if isButton then "imageButton" else "image"))) :
      ItemMirrors j (.image isButton i)
  | carousel {j : Json} {view : View} {pages : List Template} {spacing : Binary64}
      (tag : j.get? "type" = some (.string "carouselView"))
      (elements : List.Forall₂ TemplateMirrors (bodyElements j) pages) :
      ItemMirrors j (.carousel view pages spacing)

end

/-- What is read of a part has the tree of its value. -/
def Part.IsMirrored : Part → Prop
  | .template j path => ∀ t, readTemplate j path = .ok t → TemplateMirrors j t
  | .item j path => ∀ i, readItem j path = .ok i → ItemMirrors j i

/-- Elements that are read are as many, in the same order. -/
theorem forall₂_of_readEach {α : Type} {read : Json → String → Except TemplateFault α}
    {make : Json → String → Part} {R : Json → α → Prop} {parent : String}
    (hmake : ∀ j path a, (make j path).IsMirrored → read j path = .ok a → R j a) {js : List Json}
    {index : Nat} (hmirrored : ∀ c ∈ placed make parent js index, c.IsMirrored) {as : List α}
    (h : readEach read parent js index = .ok as) : List.Forall₂ R js as := by
  induction js generalizing index as with
  | nil =>
    cases h
    exact .nil
  | cons j rest ih =>
    obtain ⟨a, ha, h⟩ := bind_eq_ok_iff.mp h
    obtain ⟨more, hmore, h⟩ := bind_eq_ok_iff.mp h
    cases h
    rw [placed, List.forall_mem_cons] at hmirrored
    exact .cons (hmake j _ a hmirrored.1 ha) (ih hmirrored.2 hmore)

theorem Part.isMirrored (p : Part) : p.IsMirrored := by
  have hitem : ∀ j path i, (Part.item j path).IsMirrored → readItem j path = .ok i →
      ItemMirrors j i := fun _ _ i h => h i
  have htemplate : ∀ j path t, (Part.template j path).IsMirrored → readTemplate j path = .ok t →
      TemplateMirrors j t := fun _ _ t h => h t
  induction p using Part.induction with
  | step p ih =>
    cases p with
    | template j path =>
      intro t ht
      rw [readTemplate_eq] at ht
      obtain ⟨_, -, ht⟩ := bind_eq_ok_iff.mp ht
      cases hbody : body? j with
      | none =>
        rw [hbody] at ht
        cases ht
        exact .bare hbody
      | some body =>
        rw [hbody] at ht
        obtain ⟨items, hitems, ht⟩ := bind_eq_ok_iff.mp ht
        cases ht
        rw [readItems_eq] at hitems
        simp only [children, hbody] at ih
        exact .full hbody (forall₂_of_readEach hitem ih hitems)
    | item j path =>
      intro i hi
      rw [readItem_eq] at hi
      obtain ⟨tag, hcheck, hi⟩ := bind_eq_ok_iff.mp hi
      obtain ⟨htag, hkind⟩ := kind_of_checkItem hcheck
      simp only [itemKinds, List.mem_cons, List.not_mem_nil, or_false] at hkind
      rcases hkind with rfl | rfl | rfl | rfl | rfl | rfl
      · obtain ⟨items, hitems, hi⟩ := bind_eq_ok_iff.mp hi
        cases hi
        simp only [children, htag, elements_object htag] at ih
        rw [elements_object htag, readItems_eq] at hitems
        exact .box htag (forall₂_of_readEach hitem ih hitems)
      · cases hi
        exact .text htag
      · cases hi
        exact .text htag
      · cases hi
        exact .image htag
      · cases hi
        exact .image htag
      · obtain ⟨pages, hpages, hi⟩ := bind_eq_ok_iff.mp hi
        cases hi
        simp only [children, htag, elements_object htag] at ih
        rw [elements_object htag, readPages_eq] at hpages
        exact .carousel htag (forall₂_of_readEach htemplate ih hpages)

end TemplateReader

open TemplateReader

/-- A document is a template if and only if every template and item in it passes its own checks, and
the template then has one item for each element, in the same order. Otherwise the fault is that of
the first one that does not, one before those in it and these from first to last. The fault names
the path of its template or item, and along this path the document leads to it and to nothing else;
only a template that is no object has a fault without a path. -/
theorem Template.ofJson_first_fault (j : Json) :
    (∀ t, Template.ofJson j = .ok t → TemplateMirrors j t) ∧
    ((∃ t, Template.ofJson j = .ok t) ↔
      ∀ p ∈ (Part.template j "template").preorder, p.check = .ok ()) ∧
    (∀ e, Template.ofJson j = .error e ↔ ∃ before p after,
      (Part.template j "template").preorder = before ++ p :: after ∧
        (∀ q ∈ before, q.check = .ok ()) ∧ p.check = .error e) ∧
    ∀ p ∈ (Part.template j "template").preorder, ∀ e, p.check = .error e →
      e.path? = some p.path ∧ (∃ steps, pathAlong "template" steps = p.path ∧
        follow steps j = some p.value ∧
        ∀ other, pathAlong "template" other = p.path → other = steps) ∨
      e = .notAnObject ∧ ∀ members, p.value ≠ .object members := by
  have hread : (Template.ofJson j).map (fun _ => ()) =
      forM (Part.template j "template").preorder Part.check :=
    Part.read_eq_forM (.template j "template")
  refine ⟨fun t ht => (Part.template j "template").isMirrored t ht, ?_, fun e => ?_,
    fun p hp e he => ?_⟩
  · rw [← forM_eq_ok_iff, ← hread]
    cases Template.ofJson j with
    | error e => simp [Except.map]
    | ok t => simp [Except.map]
  · rw [← forM_eq_error_iff, ← hread]
    cases Template.ofJson j with
    | error f => simp [Except.map]
    | ok t => simp [Except.map]
  · rcases Part.path?_of_check he with hpath | hroot
    · obtain ⟨steps, hsteps, hvalue⟩ := Part.isBelow_of_mem_preorder hp
      refine .inl ⟨hpath, steps, hsteps.symm, hvalue, fun other hother => ?_⟩
      exact pathAlong_injective (hother.trans hsteps)
    · exact .inr hroot

/-- A text without a text, in a box, is what is wrong with a document. -/
theorem Template.ofJson_first_fault_of_boxed_text :
    ∃ document lost : Json,
      Template.ofJson document =
        .error (.missingField "text" "template.body.items[0].items[0]") ∧
      lost = .object [("type", .string "text")] ∧
      ∃ steps, pathAlong "template" steps = "template.body.items[0].items[0]" ∧
        follow steps document = some lost := by
  let lost : Json := .object [("type", .string "text")]
  let box : Json := .object [("type", .string "box"), ("items", .array [lost])]
  let document : Json := .object [("body", .object [("items", .array [box])])]
  let root : Part := .template document "template"
  let outer : Part := .item box "template.body.items[0]"
  let inner : Part := .item lost "template.body.items[0].items[0]"
  have hroot : root.children = [outer] := rfl
  have houter : outer.children = [inner] := rfl
  have hinner : inner.children = [] := rfl
  have hparts : root.preorder = [root, outer] ++ inner :: [] := by
    rw [Part.preorder_eq, hroot, List.flatMap_singleton, Part.preorder_eq, houter,
      List.flatMap_singleton, Part.preorder_eq, hinner]
    rfl
  have hbefore : ∀ q ∈ [root, outer], q.check = .ok () := by
    simp only [List.forall_mem_cons]
    exact ⟨rfl, rfl, by simp⟩
  have hcheck : inner.check = .error (.missingField "text" inner.path) := rfl
  obtain ⟨-, -, herror, hpath⟩ := Template.ofJson_first_fault document
  refine ⟨document, lost, (herror _).mpr ⟨_, _, _, hparts, hbefore, hcheck⟩, rfl, ?_⟩
  have hmem : inner ∈ root.preorder := by
    rw [hparts]
    simp
  rcases hpath inner hmem _ hcheck with ⟨-, steps, hsteps, hvalue, -⟩ | ⟨hroot, -⟩
  · exact ⟨steps, hsteps, hvalue⟩
  · cases hroot

end MessageCard
