import Mathlib.Logic.Embedding.Basic
import MessageCard.Proofs.Constraint.Demands

/-!
# Entering constraints

A register grows by the sides that an added constraint is the first to name, and what it gave out
once it gives out again. So whatever was added before and is added later, different sides have
different unknowns, an entry keeps its meaning, and to enter a constraint once more at another
priority changes the price alone.
-/
namespace MessageCard
namespace Register

/-- The unknown that was made for a side of a frame. -/
def find? (r : Register) (x : Frame × Side) : Option ℕ := r.unknowns.find? x

/-- The unknown of a side of a frame; zero for one that was never asked for. -/
def name (r : Register) (x : Frame × Side) : ℕ := (r.find? x).getD 0

/-- The value of a side of a frame at these values of the unknowns; zero for a side that was never
asked for. -/
noncomputable def value (r : Register) (v : ℕ → ℝ) (x : Frame × Side) : ℝ :=
  ((r.find? x).map v).getD 0

/-- The value of a property of a frame at these values of the unknowns. -/
noncomputable def get (r : Register) (v : ℕ → ℝ) (x : Variable) : ℝ := x.read (r.value v)

/-- A later register knows all unknowns that an earlier one knows. -/
def Extends (s r : Register) : Prop := ∀ x u, r.find? x = some u → s.find? x = some u

/-- The unknowns of a register are the first that were made, each for one side. -/
structure IsSound (supply : ℕ ↪ ℕ) (r : Register) : Prop where
  supplied : ∀ x u, r.find? x = some u → ∃ i < r.made, u = supply i
  distinct : ∀ x y u, r.find? x = some u → r.find? y = some u → x = y

variable {supply : ℕ ↪ ℕ} {r s t : Register}

theorem Extends.refl (r : Register) : r.Extends r := fun _ _ h => h

theorem Extends.trans (h : t.Extends s) (h' : s.Extends r) : t.Extends r :=
  fun x u hx => h x u (h' x u hx)

theorem name_of_find? {x : Frame × Side} {u : ℕ} (h : r.find? x = some u) : r.name x = u := by
  rw [name, h, Option.getD_some]

theorem value_of_find? {x : Frame × Side} {u : ℕ} (h : r.find? x = some u) (v : ℕ → ℝ) :
    r.value v x = v u := by
  rw [value, h]
  rfl

theorem isSound_empty : IsSound supply empty :=
  ⟨fun _ _ h => (by cases h), fun _ _ _ h => (by cases h)⟩

/-! ## Asking for one side -/

/-- Asking gives the unknown that was made for the side, or makes the next one for it. -/
theorem ask_cases (supply : ℕ → ℕ) (r : Register) (x : Frame × Side) :
    (∃ u, r.find? x = some u ∧ r.ask supply x = (u, r)) ∨
      (r.find? x = none ∧ r.ask supply x =
        (supply r.made, ⟨r.unknowns.insert x (supply r.made), r.made + 1⟩)) := by
  unfold ask
  cases hfind : r.unknowns.find? x with
  | some u => exact .inl ⟨u, hfind, rfl⟩
  | none => exact .inr ⟨hfind, rfl⟩

theorem find?_insert (x y : Frame × Side) (u n : ℕ) :
    find? ⟨r.unknowns.insert x u, n⟩ y = if x = y then some u else r.find? y :=
  Table.find?_insert r.unknowns x y u

theorem find?_ask (x : Frame × Side) :
    (r.ask supply x).2.find? x = some (r.ask supply x).1 := by
  obtain ⟨u, hfind, hask⟩ | ⟨-, hask⟩ := ask_cases supply r x
  · rw [hask]
    exact hfind
  · rw [hask]
    exact (find?_insert x x _ _).trans (if_pos rfl)

theorem extends_ask (x : Frame × Side) : (r.ask supply x).2.Extends r := by
  obtain ⟨u, -, hask⟩ | ⟨hnone, hask⟩ := ask_cases supply r x
  · rw [hask]
    exact .refl r
  · rw [hask]
    intro y u hy
    have hne : x ≠ y := by
      rintro rfl
      rw [hnone] at hy
      cases hy
    rw [find?_insert, if_neg hne]
    exact hy

/-- A side that is in the register is given its unknown, and nothing else happens. -/
theorem ask_of_find? {x : Frame × Side} {u : ℕ} (h : r.find? x = some u) :
    r.ask supply x = (u, r) := by
  obtain ⟨w, hfind, hask⟩ | ⟨hnone, -⟩ := ask_cases supply r x
  · rw [h, Option.some.injEq] at hfind
    exact hfind ▸ hask
  · rw [h] at hnone
    cases hnone

theorem IsSound.ask (h : r.IsSound supply) (x : Frame × Side) :
    (r.ask supply x).2.IsSound supply := by
  obtain ⟨u, -, hask⟩ | ⟨-, hask⟩ := ask_cases supply r x
  · rw [hask]
    exact h
  · -- The unknown made now differs from all that were made before.
    have hfresh : ∀ y, r.find? y ≠ some (supply r.made) := by
      intro y hy
      obtain ⟨i, hi, hsupply⟩ := h.supplied y _ hy
      exact hi.ne (supply.injective hsupply).symm
    rw [hask]
    constructor
    · intro y u hy
      rw [find?_insert] at hy
      split at hy
      case isTrue =>
        cases hy
        exact ⟨r.made, Nat.lt_succ_self _, rfl⟩
      case isFalse =>
        obtain ⟨i, hi, hu⟩ := h.supplied y u hy
        exact ⟨i, Nat.lt_succ_of_lt hi, hu⟩
    · intro y z u hy hz
      rw [find?_insert] at hy hz
      split at hy
      case isTrue hxy =>
        cases hy
        split at hz
        case isTrue hxz => exact hxy.symm.trans hxz
        case isFalse => exact absurd hz (hfresh z)
      case isFalse =>
        split at hz
        case isTrue =>
          cases hz
          exact absurd hy (hfresh y)
        case isFalse => exact h.distinct y z u hy hz

/-! ## Entering a constraint -/

variable (ts : List ((Frame × Side) × Rat)) (c : Constraint)

theorem extends_askAll : (r.askAll supply ts).2.Extends r := by
  induction ts generalizing r with
  | nil => exact .refl r
  | cons t ts ih => exact ih.trans (extends_ask t.1)

theorem IsSound.askAll (h : r.IsSound supply) : (r.askAll supply ts).2.IsSound supply := by
  induction ts generalizing r with
  | nil => exact h
  | cons t ts ih => exact ih (h.ask t.1)

/-- Every side that was asked for is in the register, and the multiples are those of its
unknown. -/
theorem askAll_spec : (∀ t ∈ ts, ((r.askAll supply ts).2.find? t.1).isSome) ∧
    (r.askAll supply ts).1 = ts.map fun t => ((r.askAll supply ts).2.name t.1, t.2) := by
  induction ts generalizing r with
  | nil => exact ⟨fun _ h => absurd h List.not_mem_nil, rfl⟩
  | cons t ts ih =>
    obtain ⟨hknown, hmultiples⟩ := @ih (r.ask supply t.1).2
    have hfirst : ((r.ask supply t.1).2.askAll supply ts).2.find? t.1 =
        some (r.ask supply t.1).1 :=
      extends_askAll ts t.1 _ (find?_ask t.1)
    constructor
    · intro w hw
      rcases List.mem_cons.mp hw with rfl | hw
      · exact Option.isSome_iff_exists.mpr ⟨_, hfirst⟩
      · exact hknown w hw
    · have hcons : (r.askAll supply (t :: ts)).1 =
          ((r.ask supply t.1).1, t.2) :: ((r.ask supply t.1).2.askAll supply ts).1 := rfl
      rw [hcons, hmultiples, List.map_cons, ← name_of_find? hfirst]
      rfl

/-- Sides that are all in the register are given their unknowns, and nothing else happens. -/
theorem askAll_of_known (h : ∀ t ∈ ts, (r.find? t.1).isSome) :
    r.askAll supply ts = (ts.map fun t => (r.name t.1, t.2), r) := by
  induction ts with
  | nil => rfl
  | cons t ts ih =>
    obtain ⟨u, hu⟩ := Option.isSome_iff_exists.mp (h t List.mem_cons_self)
    rw [askAll, ask_of_find? hu]
    dsimp only
    rw [ih fun w hw => h w (List.mem_cons_of_mem _ hw), List.map_cons, name_of_find? hu]

theorem extends_enter : (r.enter supply c).2.Extends r := extends_askAll c.terms

theorem IsSound.enter (h : r.IsSound supply) : (r.enter supply c).2.IsSound supply :=
  h.askAll c.terms

/-- What is entered is the constraint under the names of the register. -/
theorem enter_eq : (r.enter supply c).1 = c.entry (r.enter supply c).2.name :=
  congrArg (fun ms => (⟨ms, c.constant, c.sense, c.priority.weight⟩ : Entry))
    (askAll_spec c.terms).2

/-- Both sides of a constraint may speak of one frame, whose sides then have one unknown each. -/
example : (empty.enter id
      (.proportional ⟨.outer 1, .right⟩ ⟨.outer 1, .centerX⟩ 2 .required)).1.multiples =
    [(0, 1), (1, 1), (0, -2), (1, -1)] := by decide +kernel

/-- The sides that a constraint speaks of are in the register once it was entered. -/
theorem isSome_find?_enter : ∀ t ∈ c.terms, ((r.enter supply c).2.find? t.1).isSome :=
  (askAll_spec c.terms).1

/-- A constraint whose sides are all in the register leaves it as it is. -/
theorem enter_of_known (h : ∀ t ∈ c.terms, (r.find? t.1).isSome) :
    r.enter supply c = (c.entry r.name, r) := by
  rw [enter, askAll_of_known c.terms h]
  rfl

/-! ## Histories -/

theorem extends_enterAll (cs : List Constraint) : (r.enterAll supply cs).Extends r := by
  induction cs generalizing r with
  | nil => exact .refl r
  | cons c cs ih => exact ih.trans (extends_enter c)

theorem IsSound.enterAll (h : r.IsSound supply) (cs : List Constraint) :
    (r.enterAll supply cs).IsSound supply := by
  induction cs generalizing r with
  | nil => exact h
  | cons c cs ih => exact ih (h.enter c)

/-- The names of a later register are those of an earlier one, for what the earlier one knows. -/
theorem realSides_of_extends (h : s.Extends r) {ts : List ((Frame × Side) × Rat)}
    (hknown : ∀ t ∈ ts, (r.find? t.1).isSome) (v : ℕ → ℝ) :
    realSides (fun x => v (r.name x)) ts = realSides (s.value v) ts := by
  refine congrArg List.sum (List.map_congr_left fun t ht => ?_)
  obtain ⟨u, hu⟩ := Option.isSome_iff_exists.mp (hknown t ht)
  show t.2 * v (r.name t.1) = t.2 * s.value v t.1
  rw [name_of_find? hu, value_of_find? (h _ _ hu)]

/-- An entry holds if what any later register reads is as asked. -/
theorem holdsOver_enter (d : Demand) (p : Priority)
    (h : s.Extends (r.enter supply (d.constraint p)).2) (v : ℕ → ℝ) :
    (r.enter supply (d.constraint p)).1.HoldsOver v ↔ d.Holds (s.get v) := by
  rw [enter_eq, Entry.HoldsOver, Constraint.entry, realMultiples_map,
    realSides_of_extends h (isSome_find?_enter (d.constraint p))]
  exact d.comparesZero_iff p (s.value v)

/-- What was entered is the constraint under the names of any later register. -/
theorem enter_eq_of_extends (h : s.Extends (r.enter supply c).2) :
    (r.enter supply c).1 = c.entry s.name := by
  rw [enter_eq]
  refine congrArg (fun ms => (⟨ms, _, _, _⟩ : Entry)) (List.map_congr_left fun t ht => ?_)
  obtain ⟨u, hu⟩ := Option.isSome_iff_exists.mp (isSome_find?_enter c t ht)
  rw [name_of_find? hu, name_of_find? (h _ _ hu)]

/-- To enter a demand again at another priority changes its price and nothing else. -/
theorem enter_again (d : Demand) (p q : Priority)
    (h : s.Extends (r.enter supply (d.constraint p)).2) :
    s.enter supply (d.constraint q) =
      ({ (r.enter supply (d.constraint p)).1 with weight := q.weight }, s) := by
  rw [enter_of_known, d.entry_constraint p q, enter_eq_of_extends (d.constraint p) h]
  intro t ht
  rw [d.terms_constraint p q] at ht
  obtain ⟨u, hu⟩ := Option.isSome_iff_exists.mp (isSome_find?_enter (d.constraint p) t ht)
  exact Option.isSome_iff_exists.mpr ⟨u, h _ _ hu⟩

end Register

/-- A required constraint that is refused is given to the solver as one of high priority is. -/
theorem ConstraintSystem.add_of_refused {σ : Type} [RelationSolver σ] {s : ConstraintSystem σ}
    {c : Constraint} (h : place? s.solver s.nextHandle c = none) :
    (s.add c).2.solver = (s.add { c with priority := .high }).2.solver := by
  rw [add, h]
  rfl

/-- Constraints mean what they are documented to mean. Let a demand be entered after any history of
additions, and others after it. Its entry then holds at given values of the unknowns exactly if what
the register reads at these values is as asked; no two sides share an unknown; and entered again at
another priority the demand has the same entry at another price and leaves the register as it is.

A running system enters the same multiples under names that it need not keep, which are distinct
too, and reads its solutions in the same way; a constraint that is refused goes to the solver once
more as the same one of high priority. -/
theorem entering_is_faithful (supply : ℕ ↪ ℕ) (earlier later : List Constraint) (d : Demand)
    (p : Priority) :
    let r := Register.empty.enterAll supply earlier
    let e := (r.enter supply (d.constraint p)).1
    let t := (r.enter supply (d.constraint p)).2.enterAll supply later
    ((∀ v : ℕ → ℝ, e.HoldsOver v ↔ d.Holds (t.get v)) ∧
      (∀ x y u, t.find? x = some u → t.find? y = some u → x = y) ∧
      (∀ q, t.enter supply (d.constraint q) = ({ e with weight := q.weight }, t)) ∧
      e = (d.constraint p).entry t.name) ∧
    ((d.constraint p).relation = ((d.constraint p).entry fun y => y.1.unknown y.2).relation ∧
      (∀ v : Linear.Column → ℝ, (d.constraint p).relation.HoldsOver v ↔
        d.Holds fun x => x.read fun y => v (.unknown (y.1.unknown y.2))) ∧
      (∀ (s : Solution) (x : Variable), s.get x = x.read fun y => s.unknown (y.1.unknown y.2)) ∧
      (∀ x y : Frame × Side, x.1.unknown x.2 = y.1.unknown y.2 → x = y) ∧
      ∀ {σ : Type} [RelationSolver σ] (s : ConstraintSystem σ),
        ConstraintSystem.place? s.solver s.nextHandle (d.constraint p) = none →
        (s.add (d.constraint p)).2.solver = (s.add (d.constraint .high)).2.solver) := by
  intro r e t
  have hextends : t.Extends (r.enter supply (d.constraint p)).2 := Register.extends_enterAll later
  have hsound : t.IsSound supply :=
    ((Register.isSound_empty.enterAll earlier).enter (d.constraint p)).enterAll later
  refine ⟨⟨?_, hsound.distinct, ?_, ?_⟩, ?_, ?_, Solution.get_eq_read, ?_, ?_⟩
  · exact Register.holdsOver_enter d p hextends
  · exact fun q => Register.enter_again d p q hextends
  · exact Register.enter_eq_of_extends (d.constraint p) hextends
  · exact Constraint.relation_eq (d.constraint p)
  · exact d.holdsOver_relation p
  · intro x y h
    obtain ⟨hframe, hside⟩ := Frame.unknown_inj.mp h
    exact Prod.ext hframe hside
  · intro σ _ s h
    have hhigh : { d.constraint p with priority := .high } = d.constraint .high := by
      cases d <;> rfl
    rw [ConstraintSystem.add_of_refused h, hhigh]

end MessageCard
