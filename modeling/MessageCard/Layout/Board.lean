import MessageCard.Constraint.System
import MessageCard.Layout.Rules

/-!
# Boards

A board is a system of constraints that knows which of them belong to an owner. Instructions are
carried out on it one after another.
-/
namespace MessageCard

/-- A system of constraints with the handles of those that may be replaced. -/
structure Board (σ : Type) where
  system : ConstraintSystem σ
  owned : List (Owner × Handle)

namespace Board

variable {σ : Type} [RelationSolver σ]

def empty : Board σ := ⟨.empty, []⟩

/-- The handles of an owner's constraints, oldest first. -/
def handles (b : Board σ) (o : Owner) : List Handle :=
  (b.owned.filter (·.1 = o)).map (·.2)

/-- The board with a constraint that stays. -/
def state (b : Board σ) (c : Constraint) : Board σ := { b with system := (b.system.add c).2 }

/-- The board with a constraint of an owner. -/
def own (b : Board σ) (o : Owner) (c : Constraint) : Board σ :=
  let (handle, system) := b.system.add c
  ⟨system, b.owned ++ [(o, handle)]⟩

/-- The board without the constraints of an owner. -/
def disown (b : Board σ) (o : Owner) : Except SystemError (Board σ) := do
  let system ← (b.handles o).foldlM ConstraintSystem.remove b.system
  return ⟨system, b.owned.filter (·.1 ≠ o)⟩

/-- The board after an instruction. -/
def follow (b : Board σ) : Instruction → Except SystemError (Board σ)
  | .state c => .ok (b.state c)
  | .own o c => .ok (b.own o c)
  | .replace o cs => do return cs.foldl (fun b c => b.own o c) (← b.disown o)

/-- The board after a list of instructions. -/
def run (b : Board σ) (instructions : List Instruction) : Except SystemError (Board σ) :=
  instructions.foldlM follow b

/-- A solution of the constraints on the board. -/
def solve (b : Board σ) : Solution × Board σ :=
  let (solution, system) := b.system.solve
  (solution, { b with system })

end Board
end MessageCard
