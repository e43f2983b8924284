import Mathlib.Data.List.Basic
import Mathlib.Data.List.Induction
import MessageCard.Layout.Outline
import MessageCard.Proofs.Text.Brackets

/-!
# The nodes and paths of an outline

The nodes of an outline are its root and, child by child, all nodes below it. Paths tell nodes
apart: two ways down from one place give one path only if they are the same way.
-/
namespace MessageCard

namespace OutlineNode

theorem outlineNodes_eq (ns : List OutlineNode) : outlineNodes ns = ns.flatMap nodes := by
  induction ns with
  | nil => rfl
  | cons n ns ih => rw [outlineNodes, List.flatMap_cons, ih]

theorem nodes_eq (n : OutlineNode) : n.nodes = n :: outlineNodes n.children := by
  cases n
  rw [nodes]

theorem mem_nodes {m n : OutlineNode} :
    m ∈ n.nodes ↔ m = n ∨ ∃ c ∈ n.children, m ∈ c.nodes := by
  rw [nodes_eq, List.mem_cons, outlineNodes_eq, List.mem_flatMap]

theorem self_mem_nodes (n : OutlineNode) : n ∈ n.nodes := mem_nodes.mpr (.inl rfl)

/-- What follows for a node from its children holds of every node. -/
theorem induction {P : OutlineNode → Prop} (step : ∀ n, (∀ c ∈ n.children, P c) → P n)
    (n : OutlineNode) : P n :=
  step n fun c _ => induction step c
termination_by sizeOf n
decreasing_by
  have := List.sizeOf_lt_of_mem ‹c ∈ n.children›
  obtain ⟨⟩ := n
  simp only [mk.sizeOf_spec] at *
  omega

/-- The nodes below a node of an outline are nodes of the outline. -/
theorem mem_nodes_trans {k m n : OutlineNode} (hk : k ∈ m.nodes) (hm : m ∈ n.nodes) :
    k ∈ n.nodes := by
  induction n using induction with
  | step n ih =>
    rcases mem_nodes.mp hm with rfl | ⟨c, hc, hm⟩
    · exact hk
    · exact mem_nodes.mpr (.inr ⟨c, hc, ih c hc hm⟩)

theorem mem_nodes_of_mem_children {c m n : OutlineNode} (hc : c ∈ m.children) (hm : m ∈ n.nodes) :
    c ∈ n.nodes :=
  mem_nodes_trans (mem_nodes.mpr (.inr ⟨c, hc, c.self_mem_nodes⟩)) hm

/-- A node among nodes of which no two have the same number. -/
theorem exists_split {ns : List OutlineNode} {n : OutlineNode} (hids : (ns.map (·.id)).Nodup)
    (hn : n ∈ ns) : ∃ before after, ns = before ++ n :: after ∧ (∀ k ∈ before, k.id ≠ n.id) ∧
      ∀ k ∈ after, k.id ≠ n.id := by
  obtain ⟨before, after, rfl⟩ := List.append_of_mem hn
  rw [List.map_append, List.map_cons, List.nodup_append] at hids
  obtain ⟨-, hafter, hbefore⟩ := hids
  refine ⟨before, after, rfl, fun k hk => ?_, fun k hk he => ?_⟩
  · exact hbefore _ (List.mem_map_of_mem hk) _ List.mem_cons_self
  · exact (List.nodup_cons.mp hafter).1 (he ▸ List.mem_map_of_mem hk)

/-! ## Outlines as boxes make them -/

/-- What is below a hidden node is hidden, and only nodes that stack have children. -/
structure IsRegular (n : OutlineNode) : Prop where
  hidden : n.hidden = true → ∀ c ∈ n.children, c.hidden = true
  childless : n.slot.stacking? = none → n.children = []

/-- Nothing below a hidden node is shown. -/
theorem hidden_of_mem_nodes {m n root : OutlineNode} (hregular : ∀ k ∈ root.nodes, k.IsRegular)
    (hn : n ∈ root.nodes) (hhidden : n.hidden = true) (hm : m ∈ n.nodes) : m.hidden = true := by
  induction n using induction with
  | step n ih =>
    rcases mem_nodes.mp hm with rfl | ⟨c, hc, hm⟩
    · exact hhidden
    · exact ih c hc (mem_nodes_of_mem_children hc hn) ((hregular n hn).hidden hhidden c hc) hm

end OutlineNode

/-! ## Paths -/

/-- Paths of two items are the same only for the same item of the same box. -/
theorem itemPath_inj {p q : String} {i j : Nat} :
    itemPath p i = itemPath q j ↔ p = q ∧ i = j := element_path_inj

/-- The path after some steps down, each to the item with an index. -/
def pathFrom (start : String) (steps : List Nat) : String := steps.foldl itemPath start

@[simp] theorem pathFrom_cons (start : String) (i : Nat) (steps : List Nat) :
    pathFrom start (i :: steps) = pathFrom (itemPath start i) steps := rfl

theorem pathFrom_concat (start : String) (steps : List Nat) (i : Nat) :
    pathFrom start (steps ++ [i]) = itemPath (pathFrom start steps) i := by
  simp [pathFrom]

theorem length_lt_itemPath (path : String) (i : Nat) : path.length < (itemPath path i).length := by
  simp only [itemPath, String.length_append]
  have hlabel : ".items[".length = 7 := rfl
  omega

theorem length_le_pathFrom (start : String) (steps : List Nat) :
    start.length ≤ (pathFrom start steps).length := by
  induction steps generalizing start with
  | nil => exact Nat.le_refl _
  | cons i steps ih =>
    exact Nat.le_trans (Nat.le_of_lt (length_lt_itemPath start i)) (ih (itemPath start i))

theorem pathFrom_concat_ne (start : String) (steps : List Nat) (i : Nat) :
    pathFrom start (steps ++ [i]) ≠ start := by
  intro h
  have hlt := length_lt_itemPath (pathFrom start steps) i
  rw [← pathFrom_concat, h] at hlt
  exact absurd (length_le_pathFrom start steps) (Nat.not_le.mpr hlt)

/-- The steps of a path can be read off it. -/
theorem pathFrom_injective (start : String) : Function.Injective (pathFrom start) := by
  intro s
  induction s using List.reverseRecOn with
  | nil =>
    intro t h
    rcases List.eq_nil_or_concat' t with rfl | ⟨t, i, rfl⟩
    · rfl
    · exact absurd h.symm (pathFrom_concat_ne start t i)
  | append_singleton s i ih =>
    intro t h
    rcases List.eq_nil_or_concat' t with rfl | ⟨t, j, rfl⟩
    · exact absurd h (pathFrom_concat_ne start s i)
    · rw [pathFrom_concat, pathFrom_concat] at h
      obtain ⟨hpath, rfl⟩ := itemPath_inj.mp h
      rw [ih hpath]

end MessageCard
