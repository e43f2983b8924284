import MessageCard.Layout.Rules
import MessageCard.Proofs.Layout.Chain
import MessageCard.Proofs.Layout.Outline

/-!
# The constraints in force

Instructions add constraints and replace those of an owner. A sheet keeps what they come to: the
constraints in force, oldest first, each with the owner that may have it replaced. What a card's
outline asks for is read off the sheet of its instructions.
-/
namespace MessageCard

/-- Constraints in force, each with its owner if it has one. -/
abbrev Sheet := List (Option Owner × Constraint)

namespace Sheet

/-- The sheet after an instruction. -/
def edit (s : Sheet) : Instruction → Sheet
  | .state c => s ++ [(none, c)]
  | .own o c => s ++ [(some o, c)]
  | .replace o cs => s.filter (·.1 ≠ some o) ++ cs.map (some o, ·)

/-- The sheet after some instructions. -/
def editAll (s : Sheet) (is : List Instruction) : Sheet := is.foldl edit s

/-- The constraints in force. -/
def constraints (s : Sheet) : List Constraint := s.map (·.2)

/-- The constraints of an owner. -/
def ofOwner (s : Sheet) (o : Owner) : List Constraint := (s.filter (·.1 = some o)).map (·.2)

/-- What is in force after an instruction was in force before or was added. -/
theorem mem_constraints_edit {s : Sheet} {i : Instruction} {c : Constraint}
    (h : c ∈ (s.edit i).constraints) : c ∈ s.constraints ∨ c ∈ i.added := by
  cases i with
  | state d => simpa [edit, constraints, Instruction.added] using h
  | own o d => simpa [edit, constraints, Instruction.added] using h
  | replace o cs =>
    rw [edit, constraints, List.map_append, List.map_map, List.mem_append] at h
    refine h.imp (fun hkept => ?_) fun hnew => ?_
    · exact (List.filter_sublist.map _).subset hkept
    · simpa [Instruction.added] using hnew

theorem mem_constraints_editAll {s : Sheet} {is : List Instruction} {c : Constraint}
    (h : c ∈ (s.editAll is).constraints) : c ∈ s.constraints ∨ ∃ i ∈ is, c ∈ i.added := by
  induction is generalizing s with
  | nil => exact .inl h
  | cons i is ih =>
    rcases ih h with h | ⟨j, hj, hc⟩
    · exact (mem_constraints_edit h).imp_right fun hc => ⟨i, List.mem_cons_self, hc⟩
    · exact .inr ⟨j, List.mem_cons_of_mem i hj, hc⟩

/-- Where nothing is replaced, everything added stays in force. -/
theorem constraints_editAll {is : List Instruction} (s : Sheet)
    (h : ∀ o cs, .replace o cs ∉ is) :
    (s.editAll is).constraints = s.constraints ++ is.flatMap Instruction.added := by
  induction is generalizing s with
  | nil => simp [editAll]
  | cons i is ih =>
    have hrest : ∀ o cs, Instruction.replace o cs ∉ is :=
      fun o cs hmem => h o cs (List.mem_cons_of_mem i hmem)
    rw [editAll, List.foldl_cons, ← editAll, ih _ hrest, List.flatMap_cons]
    cases i with
    | state c => simp [edit, constraints, Instruction.added]
    | own o c => simp [edit, constraints, Instruction.added]
    | replace o cs => exact absurd List.mem_cons_self (h o cs)

/-- The constraints of an owner after they were replaced. -/
theorem ofOwner_replace_self (s : Sheet) (o : Owner) (cs : List Constraint) :
    (s.edit (.replace o cs)).ofOwner o = cs := by
  have hgone : (s.filter (·.1 ≠ some o)).filter (·.1 = some o) = [] := by
    rw [List.filter_filter, List.filter_eq_nil_iff]
    simp
  have hnew : (cs.map fun c => (some o, c)).filter (·.1 = some o) = cs.map fun c => (some o, c) :=
    List.filter_eq_self.mpr (by simp)
  rw [ofOwner, edit, List.filter_append, hgone, List.nil_append, hnew, List.map_map]
  exact List.map_id cs

/-- The constraints of other owners stay. -/
theorem ofOwner_replace_of_ne (s : Sheet) {o o' : Owner} (cs : List Constraint)
    (hne : o' ≠ o) : (s.edit (.replace o cs)).ofOwner o' = s.ofOwner o' := by
  have hnew : (cs.map fun c => (some o, c)).filter (·.1 = some o') = [] := by
    rw [List.filter_eq_nil_iff]
    simp [hne.symm]
  rw [ofOwner, edit, List.filter_append, hnew, List.append_nil, List.filter_filter]
  have hkept : s.filter (fun p => p.1 = some o' && p.1 ≠ some o) = s.filter (·.1 = some o') := by
    refine List.filter_congr fun p _ => ?_
    by_cases hp : p.1 = some o'
    · simp [hp, hne]
    · simp [hp]
  rw [hkept]
  rfl

/-- An owner whose constraints are replaced by themselves: nothing but the order changes. -/
theorem constraints_edit_ofOwner (s : Sheet) (o : Owner) :
    (s.edit (.replace o (s.ofOwner o))).constraints.Perm s.constraints := by
  have hsplit := (List.filter_append_perm (fun p => decide (p.1 = some o)) s).map (·.2)
  rw [List.map_append] at hsplit
  rw [edit, constraints, List.map_append, List.map_map]
  refine List.Perm.trans ?_ (List.perm_append_comm.trans hsplit)
  simp [ofOwner, Function.comp_def]

end Sheet

/-- What an instruction gives to an owner. -/
def Instruction.given (o : Owner) : Instruction → List Constraint
  | .state _ => []
  | .own o' c => if o' = o then [c] else []
  | .replace _ _ => []

/-- The node that an owner is a part of. -/
def Owner.node : Owner → Nat
  | .trailing n => n
  | .text n => n
  | .image n => n
  | .carousel n => n

/-- An owner whose constraints are not replaced has all that it was given. -/
theorem Sheet.ofOwner_editAll {o : Owner} {is : List Instruction} (s : Sheet)
    (h : ∀ cs, .replace o cs ∉ is) :
    (s.editAll is).ofOwner o = s.ofOwner o ++ is.flatMap (Instruction.given o) := by
  induction is generalizing s with
  | nil => simp [editAll]
  | cons i is ih =>
    have hrest : ∀ cs, Instruction.replace o cs ∉ is :=
      fun cs hmem => h cs (List.mem_cons_of_mem i hmem)
    have hstep : (s.edit i).ofOwner o = s.ofOwner o ++ i.given o := by
      cases i with
      | state c => simp [edit, ofOwner, Instruction.given]
      | own o' c =>
        by_cases ho : o' = o
        · simp [edit, ofOwner, Instruction.given, ho]
        · simp [edit, ofOwner, Instruction.given, ho]
      | replace o' cs =>
        have hne : o ≠ o' := fun he => h cs (he ▸ List.mem_cons_self)
        rw [ofOwner_replace_of_ne s cs hne, Instruction.given, List.append_nil]
    rw [editAll, List.foldl_cons, ← editAll, ih _ hrest, hstep, List.flatMap_cons,
      List.append_assoc]

/-! ## The instructions of an outline -/

namespace Rules

variable {sizes : ImageSizes} {scale : Binary64}

/-- The children of a box that are shown are set up one after another. -/
theorem ofChildren_eq (parent : Nat) (s : Stacking) (cs : List OutlineNode) :
    ofChildren sizes scale parent s cs =
      (shown cs).flatMap fun c => ofNode sizes scale c ++ placing parent s c := by
  induction cs with
  | nil => rfl
  | cons c cs ih =>
    rw [ofChildren, ih]
    cases h : c.hidden <;> simp [shown, h]

theorem flatMap_shown {α : Type} {cs : List OutlineNode} (f : OutlineNode → List α)
    (h : ∀ c, c.hidden = true → f c = []) : (shown cs).flatMap f = cs.flatMap f := by
  induction cs with
  | nil => rfl
  | cons c cs ih =>
    cases hc : c.hidden with
    | true => simpa [shown, hc, h c hc] using ih
    | false => simpa [shown, hc] using ih

/-- What a box says about its children. -/
def ofBox (sizes : ImageSizes) (scale : Binary64) (n : OutlineNode) (s : Stacking) :
    List Instruction :=
  (shown n.children).flatMap (fun c => ofNode sizes scale c ++ placing n.id s c) ++
    (ofStack n.id s n.children).map .state

theorem ofNode_of_hidden {n : OutlineNode} (h : n.hidden = true) : ofNode sizes scale n = [] := by
  obtain ⟨id, path, view, hidden, loosened, slot, children⟩ := n
  rw [ofNode, if_pos h]

theorem ofNode_of_shown {n : OutlineNode} (h : n.hidden = false) :
    ofNode sizes scale n = frames n.id n.view ++ content sizes scale n.id n.view n.slot ++
      n.slot.stacking?.elim [] (ofBox sizes scale n) := by
  obtain ⟨id, path, view, hidden, loosened, slot, children⟩ := n
  have hshown : ¬hidden = true := by simpa using h
  rw [ofNode, if_neg hshown]
  congr 1
  cases hs : slot.stacking? with
  | none => rfl
  | some s => simp only [ofChildren_eq]; rfl

/-- A node that is shown contributes all its instructions to the outline around it. -/
theorem ofNode_subset {n root : OutlineNode} (hregular : ∀ k ∈ root.nodes, k.IsRegular)
    (hn : n ∈ root.nodes) (hshown : n.hidden = false) :
    ofNode sizes scale n ⊆ ofNode sizes scale root := by
  induction root using OutlineNode.induction with
  | step root ih =>
    rcases OutlineNode.mem_nodes.mp hn with rfl | ⟨c, hc, hmem⟩
    · exact List.Subset.refl _
    have hbelow : ∀ k ∈ c.nodes, k.IsRegular :=
      fun k hk => hregular k (OutlineNode.mem_nodes.mpr (.inr ⟨c, hc, hk⟩))
    have hroot := hregular root root.self_mem_nodes
    -- Neither the child around the node nor the root can be hidden, and the root stacks the child.
    have hcshown : c.hidden = false := by
      cases h : c.hidden with
      | false => rfl
      | true =>
        have hhidden := OutlineNode.hidden_of_mem_nodes hbelow c.self_mem_nodes h hmem
        simp [hshown] at hhidden
    have hrshown : root.hidden = false := by
      cases h : root.hidden with
      | false => rfl
      | true =>
        have hhidden := hroot.hidden h c hc
        simp [hcshown] at hhidden
    cases hs : root.slot.stacking? with
    | none => simp [hroot.childless hs] at hc
    | some s =>
      intro i hi
      have hci := ih c hc hbelow hmem hi
      have hcs : c ∈ shown root.children := List.mem_filter.mpr ⟨hc, by simp [hcshown]⟩
      rw [ofNode_of_shown hrshown, hs]
      refine List.mem_append_right _ (List.mem_append_left _ ?_)
      exact List.mem_flatMap.mpr ⟨c, hcs, List.mem_append_left _ hci⟩

/-! ## Where trailing edges stay pinned -/

theorem replace_not_mem_frames (node : Nat) (view : View) (o : Owner) (cs : List Constraint) :
    .replace o cs ∉ frames node view := by
  simp [frames]

theorem replace_not_mem_content (node : Nat) (view : View) (slot : Slot) (o : Owner)
    (cs : List Constraint) : .replace o cs ∉ content sizes scale node view slot := by
  cases slot with
  | root => simp [content]
  | box s => simp [content]
  | text t => simp only [content, text]; split <;> split <;> simp
  | image i => simp [content]
  | carousel spacing extent => simp only [content, carousel]; split <;> split <;> simp

/-- Only the trailing edges of loosened nodes are replaced. -/
theorem loosened_of_replace_mem {n : OutlineNode} {o : Owner} {cs : List Constraint}
    (h : .replace o cs ∈ ofNode sizes scale n) :
    ∃ m ∈ n.nodes, m.loosened = true ∧ o = .trailing m.id := by
  induction n using OutlineNode.induction with
  | step n ih =>
    cases hhidden : n.hidden with
    | true => simp [ofNode_of_hidden hhidden] at h
    | false =>
      rw [ofNode_of_shown hhidden, List.mem_append, List.mem_append] at h
      rcases h with (hmem | hmem) | hmem
      · exact absurd hmem (replace_not_mem_frames _ _ _ _)
      · exact absurd hmem (replace_not_mem_content _ _ _ _ _)
      · cases hs : n.slot.stacking? with
        | none => simp [hs] at hmem
        | some s =>
          simp only [hs, Option.elim_some, ofBox, List.mem_append, List.mem_flatMap,
            List.mem_map, reduceCtorEq, and_false, exists_false, or_false] at hmem
          obtain ⟨c, hc, hmem⟩ := hmem
          have hcn : c ∈ n.children := (List.mem_filter.mp hc).1
          rcases hmem with hmem | hmem
          · obtain ⟨m, hm, hloosened, rfl⟩ := ih c hcn hmem
            exact ⟨m, OutlineNode.mem_nodes.mpr (.inr ⟨c, hcn, hm⟩), hloosened, rfl⟩
          · cases hloosened : c.loosened with
            | true =>
              have ho : o = .trailing c.id ∧
                  cs = [trailingEdge c.id c.view.style.padding.right .low] := by
                simpa [placing, hloosened] using hmem
              exact ⟨c, OutlineNode.mem_nodes_of_mem_children hcn n.self_mem_nodes, hloosened, ho.1⟩
            | false => simp [placing, hloosened] at hmem

/-- In the sheet of an outline in which nothing is loosened is all that was added. -/
theorem requiredHold_added {v : Linear.Assignment} {root : OutlineNode}
    (hpinned : ∀ m ∈ root.nodes, m.loosened = false)
    (h : RequiredHold v (Sheet.editAll [] (ofCard sizes scale root)).constraints) :
    RequiredHold v ((ofCard sizes scale root).flatMap Instruction.added) := by
  have hstays : ∀ o cs, .replace o cs ∉ ofCard sizes scale root := by
    intro o cs hmem
    obtain ⟨m, hm, hloosened, -⟩ := loosened_of_replace_mem (by simpa [ofCard] using hmem)
    simp [hpinned m hm] at hloosened
  rw [Sheet.constraints_editAll _ hstays] at h
  exact h.mono (List.subset_append_right _ _)

/-- The values that satisfy it satisfy the constraints of each node that is shown. -/
theorem requiredHold_ofNode {v : Linear.Assignment} {root n : OutlineNode}
    (hregular : ∀ k ∈ root.nodes, k.IsRegular) (hpinned : ∀ m ∈ root.nodes, m.loosened = false)
    (h : RequiredHold v (Sheet.editAll [] (ofCard sizes scale root)).constraints)
    (hn : n ∈ root.nodes) (hshown : n.hidden = false) :
    RequiredHold v ((ofNode sizes scale n).flatMap Instruction.added) := by
  refine (requiredHold_added hpinned h).mono fun c hc => ?_
  obtain ⟨i, hi, hc⟩ := List.mem_flatMap.mp hc
  have hroot : i ∈ ofCard sizes scale root :=
    List.mem_append_right _ (ofNode_subset hregular hn hshown hi)
  exact List.mem_flatMap.mpr ⟨i, hroot, hc⟩

/-! ## What owners are given -/

/-- Nothing but the content of a node is given to owners other than trailing edges. -/
theorem given_ofNode {o : Owner} (ho : ∀ k, o ≠ .trailing k) {n : OutlineNode}
    (hregular : ∀ k ∈ n.nodes, k.IsRegular) :
    (ofNode sizes scale n).flatMap (Instruction.given o) = n.nodes.flatMap fun k =>
      if k.hidden then []
      else (content sizes scale k.id k.view k.slot).flatMap (Instruction.given o) := by
  induction n using OutlineNode.induction with
  | step n ih =>
    cases hhidden : n.hidden with
    | true =>
      rw [ofNode_of_hidden hhidden, List.flatMap_nil, eq_comm, List.flatMap_eq_nil_iff]
      intro k hk
      rw [if_pos (OutlineNode.hidden_of_mem_nodes hregular n.self_mem_nodes hhidden hk)]
    | false =>
      have hframes : (frames n.id n.view).flatMap (Instruction.given o) = [] := by
        have htrailing : Owner.trailing n.id ≠ o := fun he => ho n.id he.symm
        simp [frames, Instruction.given, htrailing, lengths]
      rw [ofNode_of_shown hhidden, List.flatMap_append, List.flatMap_append, hframes,
        List.nil_append, OutlineNode.nodes_eq, List.flatMap_cons, hhidden,
        OutlineNode.outlineNodes_eq, List.flatMap_assoc]
      simp only [Bool.false_eq_true, if_false]
      congr 1
      have hchildren : ∀ c ∈ n.children, (ofNode sizes scale c).flatMap (Instruction.given o) =
          c.nodes.flatMap fun k => if k.hidden then []
            else (content sizes scale k.id k.view k.slot).flatMap (Instruction.given o) :=
        fun c hc => ih c hc fun k hk => hregular k (OutlineNode.mem_nodes.mpr (.inr ⟨c, hc, hk⟩))
      rw [← List.flatMap_congr hchildren]
      cases hs : n.slot.stacking? with
      | none => simp [(hregular n n.self_mem_nodes).childless hs]
      | some s =>
        have hplacing : ∀ c, (placing n.id s c).flatMap (Instruction.given o) = [] := by
          intro c
          cases hloosened : c.loosened <;>
            simp [placing, hloosened, Instruction.given, List.flatMap_map]
        simp only [Option.elim_some, ofBox, List.flatMap_append, List.flatMap_assoc, hplacing,
          List.append_nil]
        have hstack : ((ofStack n.id s n.children).map Instruction.state).flatMap
            (Instruction.given o) = [] := by
          simp [List.flatMap_map, Instruction.given]
        rw [hstack, List.append_nil]
        exact flatMap_shown _ fun c hc => by rw [ofNode_of_hidden hc, List.flatMap_nil]

/-- Contents give to owners at their own nodes only. -/
theorem given_content_of_ne {o : Owner} {node : Nat} (h : o.node ≠ node) (view : View)
    (slot : Slot) : (content sizes scale node view slot).flatMap (Instruction.given o) = [] := by
  cases slot with
  | root => rfl
  | box s => rfl
  | text t =>
    have hne : Owner.text node ≠ o := fun he => h (he ▸ rfl)
    simp only [content, text]
    split <;> split <;> simp [Instruction.given, hne]
  | image i =>
    have hne : Owner.image node ≠ o := fun he => h (he ▸ rfl)
    simp [content, List.flatMap_map, Instruction.given, hne]
  | carousel spacing extent =>
    have hne : Owner.carousel node ≠ o := fun he => h (he ▸ rfl)
    simp only [content, carousel]
    split <;> split <;> simp [Instruction.given, hne]

/-- What only one of several nodes contributes to. -/
theorem flatMap_eq_of_nodup_ids {α : Type} {ns : List OutlineNode} {n : OutlineNode}
    {f : OutlineNode → List α} (hids : (ns.map (·.id)).Nodup) (hn : n ∈ ns)
    (hf : ∀ k ∈ ns, k.id ≠ n.id → f k = []) : ns.flatMap f = f n := by
  obtain ⟨before, after, rfl, hbefore, hafter⟩ := OutlineNode.exists_split hids hn
  have hb : before.flatMap f = [] := List.flatMap_eq_nil_iff.mpr fun k hk =>
    hf k (List.mem_append_left _ hk) (hbefore k hk)
  have ha : after.flatMap f = [] := List.flatMap_eq_nil_iff.mpr fun k hk =>
    hf k (List.mem_append_right _ (List.mem_cons_of_mem _ hk)) (hafter k hk)
  rw [List.flatMap_append, List.flatMap_cons, hb, ha, List.nil_append, List.append_nil]

/-- A node that is shown has given its owners what its content says. -/
theorem ofOwner_ofCard {o : Owner} (ho : ∀ k, o ≠ .trailing k) {root n : OutlineNode}
    (hregular : ∀ k ∈ root.nodes, k.IsRegular) (hids : (root.nodes.map (·.id)).Nodup)
    (hn : n ∈ root.nodes) (hshown : n.hidden = false) (hon : o.node = n.id) :
    (Sheet.editAll [] (ofCard sizes scale root)).ofOwner o =
      (content sizes scale n.id n.view n.slot).flatMap (Instruction.given o) := by
  have hstays : ∀ cs, .replace o cs ∉ ofCard sizes scale root := by
    intro cs hmem
    obtain ⟨m, -, -, htrailing⟩ := loosened_of_replace_mem (by simpa [ofCard] using hmem)
    exact ho m.id htrailing
  have hcard : (ofCard sizes scale root).flatMap (Instruction.given o) =
      (ofNode sizes scale root).flatMap (Instruction.given o) := rfl
  have hone := flatMap_eq_of_nodup_ids (f := fun k => if k.hidden then []
      else (content sizes scale k.id k.view k.slot).flatMap (Instruction.given o)) hids hn
    fun k _ hk => by simp [given_content_of_ne (hon ▸ hk.symm : o.node ≠ k.id)]
  rw [Sheet.ofOwner_editAll [] hstays, hcard, given_ofNode ho hregular, hone, hshown]
  simp [Sheet.ofOwner]

end Rules
end MessageCard
