import Mathlib.Data.List.Nodup
import Mathlib.Data.List.Infix
import Mathlib.Data.List.Pairwise
import MessageCard.Layout.Tree

/-!
# The nodes of a layout

A layout lists each node before its children, and all nodes but the root are children of others,
each of one and as one child. So where the numbers of the nodes grow along the list, every node has
a greater number than its parent.
-/
namespace MessageCard
namespace LayoutNode

theorem nodesOf_eq (ns : List LayoutNode) : nodesOf ns = ns.flatMap nodes := by
  induction ns with
  | nil => rfl
  | cons n ns ih => rw [nodesOf, List.flatMap_cons, ih]

theorem nodes_eq (n : LayoutNode) : n.nodes = n :: nodesOf n.children := by
  cases n
  rw [nodes]

theorem mem_nodes {m n : LayoutNode} :
    m ∈ n.nodes ↔ m = n ∨ ∃ c ∈ n.children, m ∈ c.nodes := by
  rw [nodes_eq, List.mem_cons, nodesOf_eq, List.mem_flatMap]

theorem self_mem_nodes (n : LayoutNode) : n ∈ n.nodes := mem_nodes.mpr (.inl rfl)

/-- What follows for a node from its children holds of every node. -/
theorem induction {P : LayoutNode → Prop} (step : ∀ n, (∀ c ∈ n.children, P c) → P n)
    (n : LayoutNode) : P n :=
  step n fun c _ => induction step c
termination_by sizeOf n
decreasing_by
  have := List.sizeOf_lt_of_mem ‹c ∈ n.children›
  obtain ⟨⟩ := n
  simp only [mk.sizeOf_spec] at *
  omega

/-- The nodes below a node stand together. -/
theorem nodes_infix {m n : LayoutNode} (hm : m ∈ n.nodes) : m.nodes <:+: n.nodes := by
  induction n using induction with
  | step n ih =>
    rcases mem_nodes.mp hm with rfl | ⟨c, hc, hm⟩
    · exact List.infix_refl _
    · have hbelow : c.nodes <:+: nodesOf n.children := by
        obtain ⟨before, after, heq⟩ := List.append_of_mem hc
        rw [heq, nodesOf_eq, List.flatMap_append, List.flatMap_cons]
        exact ⟨_, _, List.append_assoc _ _ _⟩
      rw [nodes_eq n]
      exact (ih c hc hm).trans (hbelow.trans (List.suffix_cons _ _).isInfix)

/-- Nodes and all that are children below them are the nodes of their trees. -/
theorem perm_children : ∀ n : LayoutNode,
    (n.nodes.flatMap (·.children)).Perm (nodesOf n.children) := by
  intro n
  induction n using induction with
  | step n ih =>
    rw [nodes_eq, List.flatMap_cons, nodesOf_eq]
    generalize n.children = cs at ih ⊢
    induction cs with
    | nil => exact .refl _
    | cons c cs ihcs =>
      obtain ⟨hc, hcs⟩ := List.forall_mem_cons.mp ih
      rw [List.flatMap_cons, List.flatMap_append, nodes_eq c, List.cons_append, List.cons_append]
      refine .cons c ?_
      rw [← nodes_eq c]
      calc cs ++ (c.nodes.flatMap (·.children) ++ (cs.flatMap nodes).flatMap (·.children))
        _ = (cs ++ c.nodes.flatMap (·.children)) ++ (cs.flatMap nodes).flatMap (·.children) :=
            (List.append_assoc _ _ _).symm
        _ |>.Perm ((nodesOf c.children ++ cs) ++ (cs.flatMap nodes).flatMap (·.children)) :=
            (List.perm_append_comm.trans (hc.append_right cs)).append_right _
        _ = nodesOf c.children ++ (cs ++ (cs.flatMap nodes).flatMap (·.children)) :=
            List.append_assoc _ _ _
        _ |>.Perm (nodesOf c.children ++ cs.flatMap nodes) := (ihcs hcs).append_left _

end LayoutNode

namespace LayoutOf

variable {t : LayoutTree}

theorem nodes_eq (t : LayoutTree) : t.nodes = t.root :: nodesOf t.root.children :=
  t.root.nodes_eq

/-- Where no node is listed twice, each node but the root is the child of one node. -/
theorem existsUnique_parent (h : t.nodes.Nodup) {n : LayoutNode} (hn : n ∈ t.nodes)
    (hroot : n ≠ t.root) : ∃! m, m ∈ t.nodes ∧ n ∈ m.children := by
  have hperm : (t.nodes.flatMap (·.children)).Perm (nodesOf t.root.children) :=
    t.root.perm_children
  rw [nodes_eq] at h hn
  have hbelow : n ∈ t.nodes.flatMap (·.children) :=
    hperm.mem_iff.mpr ((List.mem_cons.mp hn).resolve_left hroot)
  obtain ⟨m, hm, hchild⟩ := List.mem_flatMap.mp hbelow
  refine ⟨m, ⟨hm, hchild⟩, fun k ⟨hk, hkchild⟩ => ?_⟩
  obtain ⟨-, hdisjoint⟩ := List.nodup_flatMap.mp (hperm.nodup_iff.mpr (List.nodup_cons.mp h).2)
  have : Std.Symm (Function.onFun List.Disjoint LayoutNode.children) :=
    ⟨fun _ _ h _ hb ha => h ha hb⟩
  by_contra hne
  exact hdisjoint.forall hk hm hne hkchild hchild

/-- Where the numbers of the nodes grow, a child has a greater number than its parent. -/
theorem id_lt_of_mem_children (h : t.nodes.Pairwise (·.id < ·.id)) {m c : LayoutNode}
    (hm : m ∈ t.nodes) (hc : c ∈ m.children) : m.id < c.id := by
  have hnodes := h.sublist (LayoutNode.nodes_infix hm).sublist
  rw [m.nodes_eq, List.pairwise_cons] at hnodes
  refine hnodes.1 c ?_
  rw [LayoutNode.nodesOf_eq]
  exact List.mem_flatMap.mpr ⟨c, hc, c.self_mem_nodes⟩

/-- A search for a key that only one element has finds the element. -/
theorem find?_key_eq {α κ : Type} [DecidableEq κ] {key : α → κ} {xs : List α}
    (h : (xs.map key).Nodup) {x : α} (hx : x ∈ xs) : xs.find? (key · = key x) = some x := by
  cases hfind : xs.find? (key · = key x) with
  | none => exact absurd (decide_eq_true rfl) (List.find?_eq_none.mp hfind x hx)
  | some y =>
    have hkey : key y = key x := by simpa using List.find?_some hfind
    rw [List.inj_on_of_nodup_map h (List.mem_of_find?_eq_some hfind) hx hkey]

theorem find?_id (h : (t.nodes.map (·.id)).Nodup) {n : LayoutNode} (hn : n ∈ t.nodes) :
    t.find? n.id = some n := find?_key_eq h hn

theorem findPath?_path (h : (t.nodes.map (·.path)).Nodup) {n : LayoutNode} (hn : n ∈ t.nodes) :
    t.findPath? n.path = some n := find?_key_eq h hn

end LayoutOf
end MessageCard
