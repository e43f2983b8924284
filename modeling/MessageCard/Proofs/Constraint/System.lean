import Mathlib.Data.List.Forall2
import Mathlib.Data.List.Nodup
import Mathlib.Data.List.Perm.Basic
import MessageCard.Constraint.System

/-!
# What a system of constraints holds

A system that is built up by adding constraints and taken down by removing them knows each of its
constraints under a handle of its own, and hands out handles that were never there before. So what
is present can always be removed. Its solver holds one relation for each constraint present, at the
constraint's own price or, where a required constraint had to give way, at a lesser one.
-/
namespace MessageCard

/-- A relation under its name, with its price; a required one has none. -/
abbrev PricedRelation := Nat × Linear.Relation × Option Rat

namespace RelationSolver

variable {σ : Type} [RelationSolver σ]

/-- What a solver was given and holds, newest first. -/
inductive Holding : σ → List PricedRelation → Prop
  | empty : Holding RelationSolver.empty []
  | require {s t : σ} {rs : List PricedRelation} {n : Nat} {r : Linear.Relation}
      (hs : Holding s rs) (ht : RelationSolver.require? s n r = some t) :
      Holding t ((n, r, none) :: rs)
  | wish {s : σ} {rs : List PricedRelation} (n : Nat) (r : Linear.Relation) (w : Rat)
      (hs : Holding s rs) : Holding (RelationSolver.wish s n r w) ((n, r, some w) :: rs)
  | release {s : σ} {rs : List PricedRelation} (n : Nat) (hs : Holding s rs) :
      Holding (RelationSolver.release s n) (rs.filter (·.1 ≠ n))

end RelationSolver

/-- The relation of a constraint with its price. -/
def Constraint.priced (c : Constraint) : Linear.Relation × Option Rat :=
  (c.relation, c.priority.weight)

/-- What a solver is given for a constraint under a handle. -/
def Handle.Stands (p : Handle × Constraint) (r : PricedRelation) : Prop :=
  r.1 = p.1.index ∧ r.2.1 = p.2.relation ∧
    (r.2.2 = p.2.priority.weight ∨ p.2.priority = .required)

/-- A constraint that may be broken stands at its own price. -/
theorem Handle.Stands.eq_of_breakable {p : Handle × Constraint} {r : PricedRelation}
    (h : Handle.Stands p r) (hp : p.2.priority ≠ .required) :
    r.2 = p.2.priced := by
  obtain ⟨-, hrelation, hweight | hrequired⟩ := h
  · exact Prod.ext hrelation hweight
  · exact absurd hrequired hp

theorem Handle.index_inj {x y : Handle} : x.index = y.index ↔ x = y := by
  cases x
  cases y
  simp

namespace ConstraintSystem

variable {σ : Type} {s : ConstraintSystem σ}

/-- The handles of the constraints present are distinct, and none of them is still to come. -/
structure IsSound (s : ConstraintSystem σ) : Prop where
  fresh : ∀ p ∈ s.present, p.1.index < s.nextHandle
  distinct : (s.present.map (·.1)).Nodup

/-- The next handle is not taken. -/
theorem IsSound.next_not_mem (h : s.IsSound) : ⟨s.nextHandle⟩ ∉ s.present.map (·.1) := by
  intro hmem
  obtain ⟨p, hp, hindex⟩ := List.mem_map.mp hmem
  have hfresh := h.fresh p hp
  simp [hindex] at hfresh

theorem IsSound.filter (h : s.IsSound) (keep : Handle × Constraint → Bool) (solver : σ) :
    IsSound { s with solver, present := s.present.filter keep } := by
  constructor
  · exact fun p hp => h.fresh p (List.mem_filter.mp hp).1
  · exact h.distinct.sublist (List.filter_sublist.map _)

variable [RelationSolver σ]

/-- The solver holds these relations, one for each constraint present. -/
structure Holds (s : ConstraintSystem σ) (rs : List PricedRelation) : Prop where
  holding : RelationSolver.Holding s.solver rs
  stands : List.Forall₂ Handle.Stands s.present rs

theorem isSound_empty : (empty : ConstraintSystem σ).IsSound :=
  ⟨fun _ h => absurd h List.not_mem_nil, List.nodup_nil⟩

theorem holds_empty : (empty : ConstraintSystem σ).Holds [] := ⟨.empty, .nil⟩

/-! ## Adding -/

@[simp] theorem add_handle (c : Constraint) : (s.add c).1 = ⟨s.nextHandle⟩ := by
  unfold add
  dsimp only
  split <;> rfl

@[simp] theorem add_present (c : Constraint) :
    (s.add c).2.present = (⟨s.nextHandle⟩, c) :: s.present := by
  unfold add
  dsimp only
  split <;> rfl

@[simp] theorem add_nextHandle (c : Constraint) : (s.add c).2.nextHandle = s.nextHandle + 1 := by
  unfold add
  dsimp only
  split <;> rfl

@[simp] theorem add_values (c : Constraint) : (s.add c).2.values = s.values := by
  unfold add
  dsimp only
  split <;> rfl

theorem IsSound.add (h : s.IsSound) (c : Constraint) : (s.add c).2.IsSound := by
  constructor
  · intro p hp
    rw [add_present, List.mem_cons] at hp
    rw [add_nextHandle]
    rcases hp with rfl | hp
    · exact Nat.lt_succ_self _
    · exact Nat.lt_succ_of_lt (h.fresh p hp)
  · rw [add_present, List.map_cons, List.nodup_cons]
    exact ⟨h.next_not_mem, h.distinct⟩

/-- The solver holds one more relation after an addition. -/
theorem Holds.add {rs : List PricedRelation} (h : s.Holds rs) (c : Constraint) :
    ∃ r, Handle.Stands (⟨s.nextHandle⟩, c) r ∧ (s.add c).2.Holds (r :: rs) := by
  unfold ConstraintSystem.add
  dsimp only
  cases hplace : place? s.solver s.nextHandle c with
  | some solver =>
    have hstands : Handle.Stands (⟨s.nextHandle⟩, c)
        (s.nextHandle, c.relation, c.priority.weight) := ⟨rfl, rfl, .inl rfl⟩
    refine ⟨_, hstands, ?_, .cons hstands h.stands⟩
    unfold place? at hplace
    cases hweight : c.priority.weight with
    | none =>
      rw [hweight] at hplace
      exact .require h.holding hplace
    | some w =>
      rw [hweight, Option.some.injEq] at hplace
      exact hplace ▸ .wish _ _ _ h.holding
  | none =>
    -- Only a required constraint can be refused.
    have hrequired : c.priority = .required := by
      unfold place? at hplace
      cases hpriority : c.priority with
      | required => rfl
      | _ => simp [hpriority, Priority.weight] at hplace
    have hstands : Handle.Stands (⟨s.nextHandle⟩, c)
        (s.nextHandle, c.relation, some demotedWeight) := ⟨rfl, rfl, .inr hrequired⟩
    exact ⟨_, hstands, .wish _ _ _ h.holding, .cons hstands h.stands⟩

/-- A constraint that may be broken is held at its own price. -/
theorem Holds.add_breakable {rs : List PricedRelation} (h : s.Holds rs) {c : Constraint}
    (hc : c.priority ≠ .required) : ∃ r, r.2 = c.priced ∧ (s.add c).2.Holds (r :: rs) := by
  obtain ⟨r, hstands, hholds⟩ := h.add c
  exact ⟨r, hstands.eq_of_breakable hc, hholds⟩

/-! ## Removing -/

/-- Filters that agree keep what stands for each other. -/
theorem stands_filter {ps : List (Handle × Constraint)} {rs : List PricedRelation}
    (h : List.Forall₂ Handle.Stands ps rs) (keep : Handle → Bool) (keepName : Nat → Bool)
    (hkeep : ∀ x : Handle, keepName x.index = keep x) :
    List.Forall₂ Handle.Stands (ps.filter (keep ·.1)) (rs.filter (keepName ·.1)) := by
  induction h with
  | nil => exact .nil
  | @cons p r ps rs hpr _ ih =>
    have hagree : keepName r.1 = keep p.1 := by rw [hpr.1, hkeep]
    rw [List.filter_cons, List.filter_cons, hagree]
    split
    · exact .cons hpr ih
    · exact ih

/-- What is present can be removed. -/
theorem exists_remove {h : Handle} (hmem : h ∈ s.present.map (·.1)) :
    s.remove h = .ok { s with
      solver := RelationSolver.release s.solver h.index
      present := s.present.filter (·.1 ≠ h) } := by
  have hany : s.present.any (·.1 = h) = true := by
    obtain ⟨p, hp, hph⟩ := List.mem_map.mp hmem
    exact List.any_eq_true.mpr ⟨p, hp, by simp [hph]⟩
  rw [remove, if_pos hany]

/-- Handles that are present can be removed one after another, and all else stays. -/
theorem exists_removeAll {hs : List Handle} (h : s.IsSound)
    (hmem : ∀ x ∈ hs, x ∈ s.present.map (·.1)) (hnodup : hs.Nodup) :
    ∃ t : ConstraintSystem σ, hs.foldlM remove s = .ok t ∧ t.IsSound ∧
      t.present = s.present.filter (·.1 ∉ hs) ∧ t.nextHandle = s.nextHandle ∧
      t.values = s.values ∧
      ∀ rs, s.Holds rs → t.Holds (rs.filter fun r => (⟨r.1⟩ : Handle) ∉ hs) := by
  induction hs generalizing s with
  | nil => exact ⟨s, rfl, h, by simp, rfl, rfl, fun rs hrs => by simpa using hrs⟩
  | cons x hs ih =>
    obtain ⟨hx, hnodup⟩ := List.nodup_cons.mp hnodup
    have hremove := exists_remove (hmem x List.mem_cons_self)
    have hsound := h.filter (·.1 ≠ x) (RelationSolver.release s.solver x.index)
    obtain ⟨t, ht, htsound, hpresent, hnext, hvalues, hholds⟩ := ih hsound (by
      intro y hy
      obtain ⟨p, hp, rfl⟩ := List.mem_map.mp (hmem y (List.mem_cons_of_mem _ hy))
      have hne : p.1 ≠ x := fun he => hx (he ▸ hy)
      exact List.mem_map.mpr ⟨p, List.mem_filter.mpr ⟨hp, by simpa using hne⟩, rfl⟩) hnodup
    refine ⟨t, ?_, htsound, ?_, hnext, hvalues, fun rs hrs => ?_⟩
    · rw [List.foldlM_cons, hremove]
      exact ht
    · rw [hpresent, List.filter_filter]
      refine List.filter_congr fun p _ => ?_
      simp [Bool.and_comm]
    · have hrelease := RelationSolver.Holding.release x.index hrs.holding
      have hstands := stands_filter hrs.stands (fun y => decide (y ≠ x))
        (fun n => decide (n ≠ x.index)) (fun y => by simp [Handle.index_inj])
      have hrest := hholds _ ⟨hrelease, hstands⟩
      rw [List.filter_filter] at hrest
      refine (List.filter_congr fun r _ => ?_) ▸ hrest
      simp [← Handle.index_inj, Bool.and_comm]

/-! ## Solving -/

/-- The unknowns that constraints say something about. -/
def named (s : ConstraintSystem σ) : List Nat := s.present.flatMap (·.2.unknowns)

/-- The values remembered are those that the solver finds. -/
def IsSolved (s : ConstraintSystem σ) : Prop :=
  ∀ i ∈ s.named, s.values.getD i 0 = RelationSolver.value s.solver i

theorem getD_foldl_insert (value : Nat → Rat) (is : List Nat) (values : Std.HashMap Nat Rat)
    (i : Nat) :
    (is.foldl (fun values j => values.insert j (value j)) values).getD i 0 =
      if i ∈ is then value i else values.getD i 0 := by
  induction is generalizing values with
  | nil => simp
  | cons j is ih =>
    rw [List.foldl_cons, ih, Std.HashMap.getD_insert]
    by_cases hmem : i ∈ is
    · simp [hmem]
    · by_cases hij : j = i
      · simp [hij]
      · have hji : ¬i = j := fun he => hij he.symm
        simp [hmem, hij, hji]

/-- Solving finds the values of what is named and remembers all others. -/
theorem solve_getD (s : ConstraintSystem σ) (i : Nat) :
    s.solve.2.values.getD i 0 =
      if i ∈ s.named then RelationSolver.value s.solver i else s.values.getD i 0 := by
  have hvalues : s.solve.2.values =
      s.named.foldl (fun values j => values.insert j (RelationSolver.value s.solver j))
        s.values := by
    rw [named, List.foldl_flatMap]
    rfl
  rw [hvalues, getD_foldl_insert]

theorem isSolved_solve (s : ConstraintSystem σ) : s.solve.2.IsSolved := by
  intro i hi
  have hi : i ∈ s.named := hi
  rw [solve_getD, if_pos hi]
  rfl

/-- Solving twice finds what solving once finds. -/
theorem solve_solve (s : ConstraintSystem σ) (i : Nat) :
    s.solve.2.solve.1.unknown i = s.solve.1.unknown i := by
  have hagain : s.solve.2.solve.1.unknown i = s.solve.2.solve.2.values.getD i 0 := rfl
  have hnamed : s.solve.2.named = s.named := rfl
  have hsolver : s.solve.2.solver = s.solver := rfl
  rw [hagain, solve_getD, hnamed, hsolver]
  split
  case isTrue hi => exact (s.isSolved_solve i hi).symm
  case isFalse => rfl

/-! ## Order does not matter -/

/-- The relations held leave the solver no choice: every solver that holds them at these prices,
under whatever names and in whatever order, finds the same values. -/
def IsDetermined (s : ConstraintSystem σ) : Prop :=
  ∃ rs, s.Holds rs ∧ ∀ (t : σ) (ts : List PricedRelation), RelationSolver.Holding t ts →
    (ts.map (·.2)).Perm (rs.map (·.2)) →
    ∀ i, RelationSolver.value t i = RelationSolver.value s.solver i

/-- A system with the constraints of another one, held at the same prices, and with its memory. -/
structure Reorders (s t : ConstraintSystem σ) : Prop where
  present : (t.present.map (·.2)).Perm (s.present.map (·.2))
  holds : ∀ rs, s.Holds rs → ∃ ts, t.Holds ts ∧ (ts.map (·.2)).Perm (rs.map (·.2))
  values : t.values = s.values

theorem Reorders.refl (s : ConstraintSystem σ) : s.Reorders s :=
  ⟨.refl _, fun rs hrs => ⟨rs, hrs, .refl _⟩, rfl⟩

theorem Reorders.mem_named {t : ConstraintSystem σ} (h : s.Reorders t) {i : Nat} :
    i ∈ t.named ↔ i ∈ s.named := by
  have hnamed : ∀ u : ConstraintSystem σ,
      u.named = (u.present.map (·.2)).flatMap Constraint.unknowns := by
    intro u
    rw [named, List.flatMap_map]
  rw [hnamed, hnamed]
  exact (h.present.flatMap_right _).mem_iff

/-- Solved again in another order, a system that leaves no choice has the values it had. -/
theorem Reorders.solve_unknown {t : ConstraintSystem σ} (h : s.Reorders t)
    (hdetermined : s.IsDetermined) (hsolved : s.IsSolved) (i : Nat) :
    t.solve.1.unknown i = (⟨s.values⟩ : Solution).unknown i := by
  have hsolve : t.solve.1.unknown i = t.solve.2.values.getD i 0 := rfl
  rw [hsolve, solve_getD]
  split
  case isTrue hi =>
    obtain ⟨rs, hrs, hvalue⟩ := hdetermined
    obtain ⟨ts, hts, hperm⟩ := h.holds rs hrs
    rw [hvalue t.solver ts hts.holding hperm, ← hsolved i (h.mem_named.mp hi)]
    rfl
  case isFalse => rw [h.values]; rfl

end ConstraintSystem
end MessageCard
