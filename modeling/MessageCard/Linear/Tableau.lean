import MessageCard.Linear.Affine

/-!
# The tableau of a linear system under change

A tableau keeps relations between unknowns: some that must hold, and some that may be broken at a
price for each unit. Every row gives one column, a basic one, in terms of columns that are not
basic. Setting the columns that are not basic to zero satisfies all rows; this is the tableau's
current point. It is always a point where the sum of the prices paid is least, since each change of
the relations is followed by pivots that lower the sum until nothing lowers it further.

A relation is entered as a row that equals zero. When the row has an unknown, or a slack of its own
of the right sign, it is solved for that column. Otherwise the row's value is lowered to zero by
pivots, and the relation is refused when that fails. A relation leaves by bringing the column that
marks it into the basis and dropping its row.

Of several columns or rows that would do, the first in the order of columns is taken, so that no
basis comes up twice; the number of bases bounds the pivots.
-/
namespace MessageCard.Linear

/-- How an expression is meant to compare with zero. -/
inductive Sense where
  | equal
  | atLeast
  | atMost
  deriving DecidableEq, Repr

/-- A comparison of an expression over unknowns with zero. -/
structure Relation where
  expression : Affine
  sense : Sense
  deriving DecidableEq, Repr

/-- Whether values of the columns satisfy a relation. -/
def Relation.Holds (r : Relation) (v : Assignment) : Prop :=
  match r.sense with
  | .equal => r.expression.eval v = 0
  | .atLeast => 0 ≤ r.expression.eval v
  | .atMost => r.expression.eval v ≤ 0

/-- A basic column and what it equals. -/
structure Row where
  basic : Column
  value : Affine

/-- The columns by which a relation entered: the one that marks it, and a second one that pays for
the other direction. -/
structure Entry where
  name : Nat
  marker : Column
  other : Option Column
  /-- The price of a unit of the marker and of the other column. -/
  markerPrice : Rat
  otherPrice : Rat

/-- Relations, as rows, and the price to pay as an expression over the columns not basic, computed
at a given precision. -/
structure Tableau (p : Precision) where
  rows : List Row
  price : Affine
  entries : List Entry
  columns : Nat

/-- A relation that must hold may be missed by less than this. -/
def missTolerance : Rat := 1 / 100000000

namespace Tableau

variable {p : Precision}

/-- The tableau without relations. -/
def empty : Tableau p := ⟨[], .ofConstant 0, [], 0⟩

/-- What a basic column equals. -/
def lookUp (c : Column) : List Row → Option Affine
  | [] => none
  | r :: rest => if r.basic = c then some r.value else lookUp c rest

/-- The expression over the columns not basic. -/
def reduce (p : Precision) (rows : List Row) (a : Affine) : Affine :=
  a.terms.foldl (fun e t => match lookUp t.column rows with
    | some b => e.addScaled p t.factor b
    | none => e.addTerm p t.column t.factor) (.ofConstant a.constant)

/-- The rows with an expression in place of a column. -/
def substituteRows (p : Precision) (c : Column) (b : Affine) (rows : List Row) : List Row :=
  rows.map fun r => { r with value := r.value.substitute p c b }

/-- The rows with `a = 0` solved for the column `c` and added. -/
def enter (p : Precision) (c : Column) (a : Affine) (rows : List Row) : List Row :=
  let value := a.solveFor p c
  ⟨c, value⟩ :: substituteRows p c value rows

/-- Of two candidates for leaving, the one with less room, and the earlier column of two equal
ones. -/
def nearer (a b : Row × Rat) : Row × Rat :=
  if a.2 < b.2 ∨ (a.2 = b.2 ∧ a.1.basic.before b.1.basic) then a else b

/-- The row that stops a column first when the column is raised from zero, with the amount that the
column can be raised by. Rows of unknowns stop nothing. -/
def limiting (p : Precision) (c : Column) : List Row → Option (Row × Rat)
  | [] => none
  | r :: rest =>
    let k := r.value.factor c
    if k < 0 ∧ r.basic.isUnknown = false then
      let candidate := (r, p.round (r.value.constant / -k))
      some (match limiting p c rest with
        | some other => nearer candidate other
        | none => candidate)
    else limiting p c rest

/-- The equation that a row stands for, as an expression that equals zero. -/
def Row.equation (p : Precision) (r : Row) : Affine := r.value.addTerm p r.basic (-1)

/-- What the column `c` equals by a row, and the other rows with that in place of it. -/
def pivot (p : Precision) (c : Column) (leaving : Row) (rows : List Row) : Affine × List Row :=
  let value := (Row.equation p leaving).solveFor p c
  (value, substituteRows p c value (rows.filter (·.basic ≠ leaving.basic)))

/-- A column whose rise lowers an expression. -/
def lowering (a : Affine) : Option Column :=
  (a.terms.find? fun t => t.column.isSlack && t.factor < 0).map (·.column)

/-- Rows and price after pivots that lower the price until nothing lowers it further. -/
def minimize (p : Precision) : Nat → List Row → Affine → List Row × Affine
  | 0, rows, price => (rows, price)
  | fuel + 1, rows, price =>
    match lowering price with
    | none => (rows, price)
    | some c =>
      match limiting p c rows with
      | none => (rows, price)
      | some (leaving, _) =>
        let (value, rows) := pivot p c leaving rows
        minimize p fuel (⟨c, value⟩ :: rows) (price.substitute p c value)

/-- A number of pivots that no run can need. -/
def pivotBound (columns : Nat) : Nat := twoTo columns

/-- The tableau at a point of least price. -/
def settle (t : Tableau p) : Tableau p :=
  let (rows, price) := minimize p (pivotBound t.columns) t.rows t.price
  { t with rows, price }

/-- Rows and price after `goal = 0` is made true by lowering the goal, whose constant is not
negative; nothing when the goal cannot be lowered to zero. -/
def impose? (p : Precision) : Nat → List Row → Affine → Affine → Option (List Row × Affine)
  | 0, _, _, _ => none
  | fuel + 1, rows, price, goal =>
    match lowering goal with
    | none =>
      if missTolerance ≤ goal.constant then none
      else
        let goal := { goal with constant := 0 }
        match goal.terms with
        | [] => some (rows, price)
        | terms => (terms.find? (·.column.isSlack)).map fun t =>
          (enter p t.column goal rows, price.substitute p t.column (goal.solveFor p t.column))
    | some c =>
      let needed := p.round (goal.constant / -(goal.factor c))
      let reached := (enter p c goal rows, price.substitute p c (goal.solveFor p c))
      match limiting p c rows with
      | none => some reached
      | some (leaving, room) =>
        if needed ≤ room then some reached
        else
          let (value, rows) := pivot p c leaving rows
          impose? p fuel (⟨c, value⟩ :: rows) (price.substitute p c value)
            (goal.substitute p c value)

/-- The expression with a constant that is not negative, whose zeros are the same. -/
def upright (p : Precision) (a : Affine) : Affine :=
  if a.constant < 0 then a.scale p (-1) else a

/-- The column for which a new row can be solved at once: an unknown, or one of its own slacks of
the right sign. -/
def subject (a : Affine) (e : Entry) : Option Column :=
  let own (c : Column) : Option Column := if c.isSlack && a.factor c < 0 then some c else none
  match a.terms.find? (·.column.isUnknown) with
  | some t => some t.column
  | none => (own e.marker).or (e.other.bind own)

/-- The tableau with a new row, solved for one of its columns. -/
def withRow (t : Tableau p) (c : Column) (a : Affine) : Tableau p :=
  { t with rows := enter p c a t.rows, price := t.price.substitute p c (a.solveFor p c) }

/-- The tableau with a relation that must hold, or nothing when it contradicts those before. -/
def require? (t : Tableau p) (name : Nat) (r : Relation) : Option (Tableau p) :=
  let column : Column := match r.sense with
    | .equal => .marker t.columns
    | _ => .slack t.columns
  let sign : Rat := if r.sense = .atLeast then -1 else 1
  let row := upright p ((reduce p t.rows r.expression).addTerm p column sign)
  let entry : Entry := ⟨name, column, none, 0, 0⟩
  let t := { t with entries := entry :: t.entries, columns := t.columns + 1 }
  match subject row entry with
  | some c => some (t.withRow c row).settle
  | none =>
    if row.terms.all fun u => !u.column.isUnknown && !u.column.isSlack then
      if row.constant < missTolerance then some (t.withRow column row).settle else none
    else
      (impose? p (pivotBound t.columns) t.rows t.price row).map fun (rows, price) =>
        settle { t with rows, price }

/-- The tableau with a relation that may be broken at a price for each unit. -/
def wish (t : Tableau p) (name : Nat) (r : Relation) (weight : Rat) : Tableau p :=
  let first : Column := .slack t.columns
  let second : Column := .slack (t.columns + 1)
  let sign : Rat := if r.sense = .atMost then 1 else -1
  let row := upright p
    (((reduce p t.rows r.expression).addTerm p first sign).addTerm p second (-sign))
  let entry : Entry := ⟨name, first, some second, if r.sense = .equal then weight else 0, weight⟩
  let price := (t.price.addTerm p first entry.markerPrice).addTerm p second entry.otherPrice
  let t := { t with entries := entry :: t.entries, columns := t.columns + 2, price }
  match subject row entry with
  | some c => (t.withRow c row).settle
  | none => t

/-- The price without what one column pays. -/
def withoutPrice (p : Precision) (rows : List Row) (price : Affine) (c : Column) (each : Rat) :
    Affine :=
  match lookUp c rows with
  | some a => price.addScaled p (-each) a
  | none => price.addTerm p c (-each)

/-- The row that gives way to the marker of a leaving relation: the one that stops it first when
raised, else the one that stops it first when lowered, else one of an unknown. -/
def yielding (p : Precision) (c : Column) (rows : List Row) : Option Row :=
  let falling := rows.filter fun r => !r.basic.isUnknown && 0 < r.value.factor c
  let lowest := falling.foldl (fun best r =>
    let candidate := (r, p.round (r.value.constant / r.value.factor c))
    some (match best with
      | some other => nearer candidate other
      | none => candidate)) (none : Option (Row × Rat))
  ((limiting p c rows).or lowest).map (·.1) |>.or
    (rows.find? fun r => r.basic.isUnknown && r.value.factor c ≠ 0)

/-- The tableau without a relation. -/
def release (t : Tableau p) (name : Nat) : Tableau p :=
  match t.entries.find? (·.name = name) with
  | none => t
  | some e =>
    let price := withoutPrice p t.rows t.price e.marker e.markerPrice
    let price := match e.other with
      | some c => withoutPrice p t.rows price c e.otherPrice
      | none => price
    let t := { t with entries := t.entries.filter (·.name ≠ name), price }
    if (lookUp e.marker t.rows).isSome then
      settle { t with rows := t.rows.filter (·.basic ≠ e.marker) }
    else match yielding p e.marker t.rows with
      | none => t.settle
      | some row =>
        let (value, rows) := pivot p e.marker row t.rows
        settle { t with rows, price := price.substitute p e.marker value }

/-- The value of an unknown at the current point. -/
def value (t : Tableau p) (index : Nat) : Rat :=
  match lookUp (.unknown index) t.rows with
  | some a => a.constant
  | none => 0

end Tableau
end MessageCard.Linear
