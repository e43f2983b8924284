import MessageCard.Proofs.Layout.Sheet

/-!
# Which nodes constraints mention

A constraint relates edges of frames, and each frame belongs to a node. The constraints of an
outline mention only nodes that are shown: those of a node itself and, where a box speaks about its
children, those children that are shown.
-/
namespace MessageCard

namespace Constraint

/-- The frames that a constraint relates. -/
def frames (c : Constraint) : List Frame :=
  match c.right with
  | .value _ => [c.left.frame]
  | .variable other _ _ => [c.left.frame, other.frame]

/-- A constraint mentions frames of certain nodes only. -/
def MentionsOnly (P : Nat → Prop) (c : Constraint) : Prop := ∀ f ∈ c.frames, P f.node

variable {P : Nat → Prop} {left right : Variable} {value : Rat} {priority : Priority}

@[simp] theorem mentionsOnly_fixed :
    (fixed left value priority).MentionsOnly P ↔ P left.frame.node := by
  simp [MentionsOnly, frames, fixed]

@[simp] theorem mentionsOnly_notBelow :
    (notBelow left value priority).MentionsOnly P ↔ P left.frame.node := by
  simp [MentionsOnly, frames, notBelow]

@[simp] theorem mentionsOnly_equal : (equal left right value priority).MentionsOnly P ↔
    P left.frame.node ∧ P right.frame.node := by
  simp [MentionsOnly, frames, equal]

@[simp] theorem mentionsOnly_atLeast : (atLeast left right value priority).MentionsOnly P ↔
    P left.frame.node ∧ P right.frame.node := by
  simp [MentionsOnly, frames, atLeast]

@[simp] theorem mentionsOnly_atMost : (atMost left right value priority).MentionsOnly P ↔
    P left.frame.node ∧ P right.frame.node := by
  simp [MentionsOnly, frames, atMost]

@[simp] theorem mentionsOnly_proportional :
    (proportional left right value priority).MentionsOnly P ↔
      P left.frame.node ∧ P right.frame.node := by
  simp [MentionsOnly, frames, proportional]

end Constraint

namespace Frame

variable (node : Nat) (p : Property)

@[simp] theorem node_outer_at : ((outer node).at p).frame.node = node := rfl

@[simp] theorem node_content_at : ((content node).at p).frame.node = node := rfl

@[simp] theorem node_leading_at : ((leading node).at p).frame.node = node := rfl

@[simp] theorem node_trailing_at : ((trailing node).at p).frame.node = node := rfl

end Frame

/-- Some constraints mention frames of certain nodes only. -/
def MentionOnly (P : Nat → Prop) (cs : List Constraint) : Prop := ∀ c ∈ cs, c.MentionsOnly P

section MentionOnly

variable {P : Nat → Prop} {xs ys : List Constraint} {c : Constraint}

@[simp] theorem mentionOnly_nil : MentionOnly P [] := fun _ h => absurd h List.not_mem_nil

@[simp] theorem mentionOnly_cons :
    MentionOnly P (c :: xs) ↔ c.MentionsOnly P ∧ MentionOnly P xs := List.forall_mem_cons

@[simp] theorem mentionOnly_append :
    MentionOnly P (xs ++ ys) ↔ MentionOnly P xs ∧ MentionOnly P ys := List.forall_mem_append

end MentionOnly

namespace Rules

variable {P : Nat → Prop} {sizes : ImageSizes} {scale : Binary64}

/-- What some instructions add, one after another. -/
abbrev addedBy (is : List Instruction) : List Constraint := is.flatMap Instruction.added

@[simp] theorem addedBy_map_state (cs : List Constraint) : addedBy (cs.map .state) = cs := by
  simp [addedBy, List.flatMap_map, Instruction.added]

@[simp] theorem addedBy_map_own (o : Owner) (cs : List Constraint) :
    addedBy (cs.map (.own o)) = cs := by
  simp [addedBy, List.flatMap_map, Instruction.added]

/-! ## The constraints of one node -/

section Node

variable {node : Nat} (h : P node)
include h

theorem mentionOnly_lengths (view : View) (a : Axis) : MentionOnly P (lengths node view a) := by
  unfold lengths contentLength
  split <;> simp [h]

theorem mentionOnly_frames (view : View) : MentionOnly P (addedBy (frames node view)) := by
  rw [frames, addedBy, List.flatMap_append]
  refine mentionOnly_append.mpr ⟨by simp [Instruction.added, trailingEdge, h], ?_⟩
  rw [← addedBy, addedBy_map_state]
  exact mentionOnly_append.mpr ⟨mentionOnly_lengths h view _, mentionOnly_lengths h view _⟩

theorem mentionOnly_text (view : View) (t : TextSlot) :
    MentionOnly P (addedBy (text node view t)) := by
  unfold text textHeight
  split <;> split <;> simp [Instruction.added, h]

theorem mentionOnly_image (view : View) (i : ImageSlot) (sizes : ImageSizes) (scale : Binary64) :
    MentionOnly P (image node view i sizes scale) := by
  have hintrinsic : ∀ (side : Size) (property : Property) (value : Rat), MentionOnly P
      (if side.isWrap then [.fixed ((Frame.content node).at property) value .low] else []) := by
    intro side property value
    split <;> simp [h]
  unfold image
  dsimp only
  generalize Sizing.of view.width view.height i.mode _ = sizing
  split
  · cases sizing <;> simp [h]
  · refine mentionOnly_append.mpr ⟨mentionOnly_append.mpr ⟨?_, hintrinsic _ _ _⟩, hintrinsic _ _ _⟩
    cases sizing <;> simp [h]

theorem mentionOnly_carousel (view : View) (extent : Extent) :
    MentionOnly P (addedBy (carousel node view extent)) := by
  unfold carousel carouselHeight
  split <;> split <;> simp [Instruction.added, h]

theorem mentionOnly_content (view : View) (slot : Slot) :
    MentionOnly P (addedBy (content sizes scale node view slot)) := by
  cases slot with
  | root => exact mentionOnly_nil
  | box s => exact mentionOnly_nil
  | text t => exact mentionOnly_text h view t
  | image i =>
    rw [content, addedBy_map_own]
    exact mentionOnly_image h view i sizes scale
  | carousel spacing extent => exact mentionOnly_carousel h view extent

end Node

/-! ## What a box says about its children -/

theorem mentionOnly_crossing {parent child : Nat} (hparent : P parent) (hchild : P child)
    (view : View) (a : Axis) (alignment : Alignment) :
    MentionOnly P (crossing parent child view a alignment) := by
  unfold crossing
  dsimp only
  split
  · simp [hparent, hchild]
  · cases alignment <;> simp [hparent, hchild]

theorem mentionOnly_placing {parent : Nat} {child : OutlineNode} (hparent : P parent)
    (hchild : P child.id) (s : Stacking) : MentionOnly P (addedBy (placing parent s child)) := by
  rw [placing, addedBy, List.flatMap_append]
  refine mentionOnly_append.mpr ⟨?_, ?_⟩
  · split <;> simp [Instruction.added, trailingEdge, hchild]
  · rw [← addedBy, addedBy_map_state]
    exact mentionOnly_crossing hparent hchild _ _ _

theorem mentionOnly_chain {parent : Nat} (hparent : P parent) (a : Axis) :
    ∀ {ls : List Link} {before : Variable} {gap : Rat}, P before.frame.node →
      (∀ l ∈ ls, P l.node) → MentionOnly P (chain parent a before gap ls)
  | [], before, gap, hbefore, _ => by simp [chain, hparent, hbefore]
  | l :: ls, before, gap, hbefore, hls => by
    obtain ⟨hl, hls⟩ := List.forall_mem_cons.mp hls
    rw [chain, mentionOnly_cons]
    exact ⟨by simp [hl, hbefore], mentionOnly_chain hparent a hl hls⟩

theorem mentionOnly_spaces {parent : Nat} (hparent : P parent) (a : Axis) (alignment : Alignment)
    (full : Bool) : MentionOnly P (spaces parent a alignment full) := by
  unfold spaces
  split
  · simp [hparent]
  · split <;> simp [hparent]

theorem mentionOnly_shares (a : Axis) {ls : List Link} (hls : ∀ l ∈ ls, P l.node) :
    MentionOnly P (shares a ls) := by
  have hfills : ∀ l ∈ ls.filter (·.fills), P l.node := fun l hl => hls l (List.mem_filter.mp hl).1
  unfold shares
  split
  case h_1 => exact mentionOnly_nil
  case h_2 first rest heq =>
    rw [heq, List.forall_mem_cons] at hfills
    intro c hc
    obtain ⟨l, hl, rfl⟩ := List.mem_map.mp hc
    simp [hfills.1, hfills.2 l hl]

theorem mentionOnly_stacking {parent : Nat} (hparent : P parent) (a : Axis) (alignment : Alignment)
    {ls : List Link} (hls : ∀ l ∈ ls, P l.node) (overflows : Bool) :
    MentionOnly P (stacking parent a alignment ls overflows) := by
  rw [stacking]
  simp only [mentionOnly_append]
  exact ⟨⟨⟨by simp [hparent], mentionOnly_chain hparent a hparent hls⟩,
    mentionOnly_spaces hparent a alignment _⟩, mentionOnly_shares a hls⟩

/-! ## The constraints of an outline -/

/-- The constraints of a node and of all below it mention nodes that are shown. -/
theorem mentionOnly_ofNode {n : OutlineNode}
    (h : ∀ k ∈ n.nodes, k.hidden = false → P k.id) :
    MentionOnly P (addedBy (ofNode sizes scale n)) := by
  induction n using OutlineNode.induction with
  | step n ih =>
    cases hhidden : n.hidden with
    | true =>
      rw [ofNode_of_hidden hhidden]
      exact mentionOnly_nil
    | false =>
      have hn : P n.id := h n n.self_mem_nodes hhidden
      rw [ofNode_of_shown hhidden, addedBy, List.flatMap_append, List.flatMap_append]
      refine mentionOnly_append.mpr ⟨mentionOnly_append.mpr ⟨mentionOnly_frames hn n.view,
        mentionOnly_content hn n.view n.slot⟩, ?_⟩
      cases n.slot.stacking? with
      | none => exact mentionOnly_nil
      | some s =>
        rw [Option.elim_some, ofBox, List.flatMap_append, List.flatMap_assoc]
        refine mentionOnly_append.mpr ⟨fun c hc => ?_, ?_⟩
        · obtain ⟨child, hchild, hc⟩ := List.mem_flatMap.mp hc
          obtain ⟨hmem, hshown⟩ := List.mem_filter.mp hchild
          have hbelow : ∀ k ∈ child.nodes, k.hidden = false → P k.id :=
            fun k hk => h k (OutlineNode.mem_nodes.mpr (.inr ⟨child, hmem, hk⟩))
          rw [List.flatMap_append, List.mem_append] at hc
          have hchild : P child.id :=
            hbelow child child.self_mem_nodes (by simpa using hshown)
          exact hc.elim (ih child hmem hbelow c) (mentionOnly_placing hn hchild s c)
        · rw [← addedBy, addedBy_map_state, ofStack]
          refine mentionOnly_stacking hn _ _ (fun l hl => ?_) _
          obtain ⟨child, hchild, rfl⟩ := List.mem_map.mp hl
          obtain ⟨hmem, hshown⟩ := List.mem_filter.mp hchild
          exact h child (OutlineNode.mem_nodes_of_mem_children hmem n.self_mem_nodes)
            (by simpa using hshown)

end Rules

/-- An outline has a node with a number that is shown. -/
def OutlineNode.Shows (root : OutlineNode) (id : Nat) : Prop :=
  ∃ n ∈ root.nodes, n.hidden = false ∧ n.id = id

/-- All that is added for a card mentions nodes that are shown. -/
theorem Rules.mentionOnly_ofCard (sizes : ImageSizes) (scale : Binary64) {root : OutlineNode}
    (h : root.hidden = false) : MentionOnly root.Shows (addedBy (ofCard sizes scale root)) := by
  have hroot : root.Shows root.id := ⟨root, root.self_mem_nodes, h, rfl⟩
  rw [ofCard, addedBy, List.flatMap_append]
  refine mentionOnly_append.mpr ⟨by simp [Instruction.added, hroot], ?_⟩
  exact mentionOnly_ofNode fun k hk hshown => ⟨k, hk, hshown, rfl⟩

/-- What is in force after an instruction that mentions certain nodes only. -/
theorem Sheet.mentionOnly_edit {P : Nat → Prop} {s : Sheet} {i : Instruction}
    (h : MentionOnly P s.constraints) (hi : MentionOnly P i.added) :
    MentionOnly P (s.edit i).constraints :=
  fun c hc => (mem_constraints_edit hc).elim (h c) (hi c)

theorem Sheet.mentionOnly_editAll {P : Nat → Prop} {s : Sheet} {is : List Instruction}
    (h : MentionOnly P s.constraints) (his : MentionOnly P (Rules.addedBy is)) :
    MentionOnly P (s.editAll is).constraints := by
  intro c hc
  rcases mem_constraints_editAll hc with hc | ⟨i, hi, hc⟩
  · exact h c hc
  · exact his c (List.mem_flatMap.mpr ⟨i, hi, hc⟩)

end MessageCard
