import MessageCard.Layout.Siblings
import Mathlib.Order.Bounds.Basic

/-!
# Which items of a box give way

A box decides about its items by two scans, each of which adds up what the items before a place take
and stops at the first place that goes too far. What a scan looks for is a set of places here
(`Hits`), and what it finds is the least of them. For the texts that do not fit the place is
`Overruns`, for the widths of a row it is `EndsPast`; both are said of the items before a place as a
whole, by what these take together.
-/
namespace MessageCard

section Scans

variable {α β : Type} (step : α → β → α) (test : α → β → Prop)

/-- The places at which a list meets a test, in the state that the elements before have led to. -/
def Hits (start : α) (xs : List β) : Set Nat :=
  {k | ∃ x, xs[k]? = some x ∧ test ((xs.take k).foldl step start) x}

variable {step test}

theorem not_isLeast_hits_nil {start : α} {k : Nat} : ¬ IsLeast (Hits step test start []) k := by
  rintro ⟨⟨x, hx, -⟩, -⟩
  simp at hx

theorem zero_mem_hits_cons {start : α} {x : β} {xs : List β} :
    0 ∈ Hits step test start (x :: xs) ↔ test start x := by
  simp [Hits]

theorem succ_mem_hits_cons {start : α} {x : β} {xs : List β} {k : Nat} :
    k + 1 ∈ Hits step test start (x :: xs) ↔ k ∈ Hits step test (step start x) xs := by
  simp [Hits]

/-- A scan that meets its test at the first element stops there. -/
theorem isLeast_hits_cons_of_test {start : α} {x : β} {xs : List β} (h : test start x) {k : Nat} :
    IsLeast (Hits step test start (x :: xs)) k ↔ k = 0 := by
  have zero : IsLeast (Hits step test start (x :: xs)) 0 :=
    ⟨zero_mem_hits_cons.2 h, fun _ _ => Nat.zero_le _⟩
  constructor
  · intro least
    exact least.unique zero
  · rintro rfl
    exact zero

/-- A scan that does not meet its test at the first element goes on with the others. -/
theorem isLeast_hits_cons_of_not_test {start : α} {x : β} {xs : List β} (h : ¬ test start x)
    {k : Nat} :
    IsLeast (Hits step test start (x :: xs)) k ↔
      ∃ j, k = j + 1 ∧ IsLeast (Hits step test (step start x) xs) j := by
  have not_zero : 0 ∉ Hits step test start (x :: xs) := fun hz => h (zero_mem_hits_cons.1 hz)
  constructor
  · rintro ⟨hk, least⟩
    cases k with
    | zero => exact absurd hk not_zero
    | succ j =>
      refine ⟨j, rfl, succ_mem_hits_cons.1 hk, fun i hi => ?_⟩
      exact Nat.le_of_succ_le_succ (least (succ_mem_hits_cons.2 hi))
  · rintro ⟨j, rfl, hj, least⟩
    refine ⟨succ_mem_hits_cons.2 hj, fun i hi => ?_⟩
    cases i with
    | zero => exact absurd hi not_zero
    | succ i => exact Nat.succ_le_succ (least (succ_mem_hits_cons.1 hi))

/-- A place found by going on, counted from the element that was passed. -/
theorem exists_isLeast_hits_cons_iff {start : α} {x : β} {xs : List β} (h : ¬ test start x)
    {index i : Nat} :
    (∃ k, i = index + k ∧ IsLeast (Hits step test start (x :: xs)) k) ↔
      ∃ k, i = index + 1 + k ∧ IsLeast (Hits step test (step start x) xs) k := by
  simp only [isLeast_hits_cons_of_not_test h]
  constructor
  · rintro ⟨_, rfl, j, rfl, hj⟩
    exact ⟨j, by omega, hj⟩
  · rintro ⟨j, rfl, hj⟩
    exact ⟨j + 1, by omega, j, rfl, hj⟩

theorem exists_isLeast_hits_cons_iff_of_test {start : α} {x : β} {xs : List β} (h : test start x)
    {index i : Nat} :
    (∃ k, i = index + k ∧ IsLeast (Hits step test start (x :: xs)) k) ↔ index = i := by
  simp only [isLeast_hits_cons_of_test h]
  constructor
  · rintro ⟨_, rfl, rfl⟩
    rfl
  · rintro rfl
    exact ⟨0, rfl, rfl⟩

end Scans

namespace SiblingPlan

section Overflow

variable (s : LayoutSettings) (sizes : ImageSizes) (axis : Axis) (inner limit : Binary64)
  (singleLine : Bool)

/-- Where the next item begins: past an item's margins and its estimate. -/
def originPast (origin : Binary64) (item : Item) : Binary64 :=
  let margin := item.view.style.margin
  origin + (axis.lead margin + axis.trail margin +
    axis.along (estimate s sizes (item.view.available inner) singleLine item))

/-- Where the item after some others begins. -/
def originAfter (items : List Item) : Binary64 :=
  items.foldl (originPast s sizes axis inner singleLine) 0

/-- An item is a text with a flexible size that would end past a limit. -/
def RunsOver (origin : Binary64) (item : Item) : Prop :=
  ∃ isButton t, item = .text isButton t ∧ (axis.sizeOf t.view).isFixed = false ∧
    limit + overflowTolerance <
      origin + axis.lead t.view.style.margin +
        axis.along (s.textExtent t (t.view.available inner) singleLine)

/-- The item at a place is a text with a flexible size that, after all items before it, would end
past a limit. -/
def Overruns (items : List Item) (k : Nat) : Prop :=
  ∃ item, items[k]? = some item ∧
    RunsOver s axis inner limit singleLine
      (originAfter s sizes axis inner singleLine (items.take k)) item

variable {s sizes axis inner limit singleLine}

theorem runsOver_iff_flexibleText? {origin : Binary64} {item : Item} :
    RunsOver s axis inner limit singleLine origin item ↔
      ∃ extent, flexibleText? s axis (item.view.available inner) singleLine item = some extent ∧
        limit + overflowTolerance < origin + axis.lead item.view.style.margin + extent := by
  cases item with
  | text isButton t =>
    cases fixed : (axis.sizeOf t.view).isFixed <;>
      simp [RunsOver, flexibleText?, Item.asText, Item.view, fixed]
  | box view direction items align => simp [RunsOver, flexibleText?, Item.asText]
  | image isButton i => simp [RunsOver, flexibleText?, Item.asText]
  | carousel view pages spacing => simp [RunsOver, flexibleText?, Item.asText]

/-- One item of the scan: it stops at a text that runs over, and else goes on past the item. -/
theorem firstOverflow_cons {index : Nat} {origin : Binary64} {item : Item} {rest : List Item} :
    (RunsOver s axis inner limit singleLine origin item →
      firstOverflow s sizes axis inner limit singleLine index origin (item :: rest) =
        some index) ∧
    (¬ RunsOver s axis inner limit singleLine origin item →
      firstOverflow s sizes axis inner limit singleLine index origin (item :: rest) =
        firstOverflow s sizes axis inner limit singleLine (index + 1)
          (originPast s sizes axis inner singleLine origin item) rest) := by
  rw [runsOver_iff_flexibleText?]
  constructor
  · rintro ⟨extent, text, spills⟩
    simp [firstOverflow, text, spills]
  · intro h
    cases text : flexibleText? s axis (item.view.available inner) singleLine item with
    | none => simp [firstOverflow, text, originPast]
    | some extent =>
      have fits : ¬ limit + overflowTolerance <
          origin + axis.lead item.view.style.margin + extent := fun spills => h ⟨extent, text, spills⟩
      simp [firstOverflow, text, fits, originPast]

/-- The scan finds the first text that runs over, wherever it begins. -/
theorem firstOverflow_eq_some_iff {index i : Nat} {origin : Binary64} {items : List Item} :
    firstOverflow s sizes axis inner limit singleLine index origin items = some i ↔
      ∃ k, i = index + k ∧
        IsLeast (Hits (originPast s sizes axis inner singleLine)
          (RunsOver s axis inner limit singleLine) origin items) k := by
  induction items generalizing index origin with
  | nil => simp [firstOverflow, not_isLeast_hits_nil]
  | cons item rest ih =>
    by_cases spills : RunsOver s axis inner limit singleLine origin item
    · rw [firstOverflow_cons.1 spills, exists_isLeast_hits_cons_iff_of_test spills, Option.some_inj]
    · rw [firstOverflow_cons.2 spills, exists_isLeast_hits_cons_iff spills]
      exact ih

theorem firstOverflow_zero_eq_some_iff {i : Nat} {items : List Item} :
    firstOverflow s sizes axis inner limit singleLine 0 0 items = some i ↔
      IsLeast {k | Overruns s sizes axis inner limit singleLine items k} i := by
  rw [firstOverflow_eq_some_iff]
  simp only [Nat.zero_add, exists_eq_left']
  rfl

end Overflow

section Loosening

/-- Where the next item begins in a row of fixed widths. -/
def widthPast (origin : Binary64) (item : Item) : Binary64 :=
  origin + (item.view.style.margin.horizontal + (item.view.width.fixedValue).getD 0)

/-- An item that begins at a place makes a row wider than it may be. -/
def Widens (inner : Binary64) (origin : Binary64) (item : Item) : Prop :=
  inner + overflowTolerance < widthPast origin item

/-- The margins and the fixed widths of the items up to a place, its own included, are together
wider than a row. -/
def EndsPast (inner : Binary64) (items : List Item) (k : Nat) : Prop :=
  k < items.length ∧ inner + overflowTolerance < (items.take (k + 1)).foldl widthPast 0

variable {inner : Binary64}

theorem firstPast_eq_some_iff {index i : Nat} {origin : Binary64} {items : List Item} :
    firstPast inner index origin items = some i ↔
      ∃ k, i = index + k ∧ IsLeast (Hits widthPast (Widens inner) origin items) k := by
  induction items generalizing index origin with
  | nil => simp [firstPast, not_isLeast_hits_nil]
  | cons item rest ih =>
    rw [firstPast, ← widthPast]
    split
    case isTrue wide =>
      rw [exists_isLeast_hits_cons_iff_of_test (show Widens inner origin item from wide),
        Option.some_inj]
    case isFalse fits =>
      rw [exists_isLeast_hits_cons_iff (show ¬ Widens inner origin item from fits)]
      exact ih

theorem mem_hits_widens {items : List Item} {k : Nat} :
    k ∈ Hits widthPast (Widens inner) 0 items ↔ EndsPast inner items k := by
  constructor
  · rintro ⟨item, hk, wide⟩
    refine ⟨(List.getElem?_eq_some_iff.1 hk).1, ?_⟩
    rw [List.take_add_one, hk, Option.toList_some, List.foldl_append]
    exact wide
  · rintro ⟨hk, wide⟩
    refine ⟨items[k], List.getElem?_eq_getElem hk, ?_⟩
    rw [List.take_add_one, List.getElem?_eq_getElem hk, Option.toList_some,
      List.foldl_append] at wide
    exact wide

theorem firstPast_zero_eq_some_iff {i : Nat} {items : List Item} :
    firstPast inner 0 0 items = some i ↔ IsLeast {k | EndsPast inner items k} i := by
  have hits : Hits widthPast (Widens inner) 0 items = {k | EndsPast inner items k} :=
    Set.ext fun k => mem_hits_widens
  rw [firstPast_eq_some_iff, hits]
  simp only [Nat.zero_add, exists_eq_left']

end Loosening

section Plan

variable (s : LayoutSettings) (sizes : ImageSizes) (direction : Direction) (inner : Binary64)
  (height : Option Binary64) (items : List Item)

/-- The length that the items of a box may take together, where it is known: a row has its width,
a column its height. -/
def limit? : Option Binary64 :=
  match direction with
  | .row => some inner
  | .column => height

/-- The place of the first text with a flexible size that ends past what the box has for its
items. -/
def OverflowsAt (i : Nat) : Prop :=
  ∃ limit, limit? direction inner height = some limit ∧
    IsLeast {k | Overruns s sizes direction.axis inner limit
      (SiblingPlan.of s sizes direction inner height items).singleLine items k} i

variable {s sizes direction inner height items}

theorem overflowAt_of_eq_some_iff {i : Nat} :
    (SiblingPlan.of s sizes direction inner height items).overflowAt = some i ↔
      OverflowsAt s sizes direction inner height items i := by
  cases direction <;>
    simp only [SiblingPlan.of, OverflowsAt, limit?, Option.bind_eq_some_iff,
      firstOverflow_zero_eq_some_iff]

theorem overflowAt_of_eq_none_iff :
    (SiblingPlan.of s sizes direction inner height items).overflowAt = .none ↔
      ∀ i, ¬ OverflowsAt s sizes direction inner height items i := by
  simp only [← overflowAt_of_eq_some_iff, Option.eq_none_iff_forall_ne_some]

theorem looseFrom_of :
    (SiblingPlan.of s sizes direction inner height items).looseFrom =
      if direction = .row ∧
          (SiblingPlan.of s sizes direction inner height items).overflowAt = .none ∧
          ∀ item ∈ items, item.view.width.isFixed = true then
        firstPast inner 0 0 items
      else .none := by
  cases direction with
  | column => rfl
  | row =>
    simp only [SiblingPlan.of, true_and]
    split
    case h_1 fits => simp [fits, List.all_eq_true]
    case h_2 spills =>
      rw [if_neg]
      rintro ⟨fits, -⟩
      exact spills rfl fits

/-- Padding is cut only in a row of fixed widths in which every text fits, from the first item that
ends past the row. -/
theorem looseFrom_of_eq_some_iff {j : Nat} :
    (SiblingPlan.of s sizes direction inner height items).looseFrom = some j ↔
      direction = .row ∧ (∀ i, ¬ OverflowsAt s sizes direction inner height items i) ∧
        (∀ item ∈ items, item.view.width.isFixed = true) ∧
        IsLeast {k | EndsPast inner items k} j := by
  rw [looseFrom_of, ← overflowAt_of_eq_none_iff, ← firstPast_zero_eq_some_iff]
  split
  case isTrue fixed => exact ⟨fun h => ⟨fixed.1, fixed.2.1, fixed.2.2, h⟩, fun h => h.2.2.2⟩
  case isFalse other =>
    constructor
    · intro h
      cases h
    · rintro ⟨row, fits, fixed, -⟩
      exact absurd ⟨row, fits, fixed⟩ other

/-- A text that does not fit is kept, and what has to give way are the items after it and those
before it that fill the main axis; then no padding is cut. Where every text fits nothing gives way,
and padding is cut only in a row of fixed widths, from the first item that ends past the row. -/
theorem of_gives_way (s : LayoutSettings) (sizes : ImageSizes) (direction : Direction)
    (inner : Binary64) (height : Option Binary64) (items : List Item) :
    (∀ i, OverflowsAt s sizes direction inner height items i →
      (SiblingPlan.of s sizes direction inner height items).overflows = true ∧
      (∀ j item, (SiblingPlan.of s sizes direction inner height items).hides
          direction.axis j item = true ↔
        i < j ∨ j < i ∧ (direction.axis.sizeOf item.view).isFill = true) ∧
      (∀ item, (SiblingPlan.of s sizes direction inner height items).hides
        direction.axis i item = false) ∧
      ∀ j, (SiblingPlan.of s sizes direction inner height items).loosens j = false) ∧
    ((∀ i, ¬ OverflowsAt s sizes direction inner height items i) →
      (SiblingPlan.of s sizes direction inner height items).overflows = false ∧
      ∀ j item, (SiblingPlan.of s sizes direction inner height items).hides
        direction.axis j item = false) ∧
    (direction = .column → height = .none →
      ∀ i, ¬ OverflowsAt s sizes direction inner height items i) ∧
    ∀ j, (SiblingPlan.of s sizes direction inner height items).looseFrom = some j ↔
      direction = .row ∧ (∀ i, ¬ OverflowsAt s sizes direction inner height items i) ∧
        (∀ item ∈ items, item.view.width.isFixed = true) ∧
        IsLeast {k | EndsPast inner items k} j := by
  refine ⟨fun i spills => ?_, fun fits => ?_, ?_, fun j => looseFrom_of_eq_some_iff⟩
  · have found := overflowAt_of_eq_some_iff.2 spills
    have kept : (SiblingPlan.of s sizes direction inner height items).looseFrom = .none := by
      rw [looseFrom_of, if_neg]
      rintro ⟨-, none, -⟩
      rw [found] at none
      cases none
    refine ⟨?_, fun j item => ?_, fun item => ?_, fun j => ?_⟩
    · rw [overflows, found, Option.isSome_some]
    · simp [hides, found]
    · simp [hides, found]
    · simp [loosens, kept]
  · have none := overflowAt_of_eq_none_iff.2 fits
    refine ⟨?_, fun j item => ?_⟩
    · rw [overflows, none, Option.isSome_none]
    · simp [hides, none]
  · rintro rfl rfl i ⟨limit, h, -⟩
    cases h

end Plan

/-- A box that fills its row, a box of a fixed width, a text that does not fit beside it and a text
after that. -/
def crowded : List Item :=
  let text (t : String) : Item :=
    .text false ⟨⟨.none, .plain, .wrap, .wrap⟩, t, 0, .plain, .topLeft⟩
  [.box ⟨.none, .plain, .fill, .wrap⟩ .column [] .topLeft,
    .box ⟨.none, .plain, .fixed 100, .wrap⟩ .column [] .topLeft,
    text "a text of many characters", text "tail"]

/-- In a crowded row the first text that is too long hides what comes after it, and before it only
what fills space. -/
theorem of_gives_way_crowded :
    OverflowsAt {} .empty .row 280 .none crowded 2 ∧
      ∀ j item, (SiblingPlan.of {} .empty .row 280 .none crowded).hides .horizontal j item = true ↔
        2 < j ∨ j < 2 ∧ item.view.width.isFill = true := by
  have spills : OverflowsAt {} .empty .row 280 .none crowded 2 :=
    overflowAt_of_eq_some_iff.1 (by decide +kernel)
  exact ⟨spills, ((of_gives_way {} .empty .row 280 .none crowded).1 2 spills).2.1⟩

end SiblingPlan
end MessageCard
