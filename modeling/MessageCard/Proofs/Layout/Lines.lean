import MessageCard.Proofs.Card.Arrangement
import MessageCard.Proofs.Layout.Heights

/-!
# Texts as they are drawn

The texts of an outline begin with the heights they are expected to have, each in a constraint and
on record. What settling makes of them is consistent: after every round the record says what the
constraints ask for, the lines drawn are the text wrapped at the width found last, and where
settling came to rest those lines are as high as the constraint of their text asks for.
-/
namespace MessageCard

/-! ## How texts begin -/

namespace OutlineNode

/-- The height that a text is expected to have, if it is shown and its height is flexible. -/
def expectedHeight? (n : OutlineNode) : Option Binary64 :=
  if n.view.height.isFixed then none else n.shownText?.map (·.expectedHeight)

/-- Heights with that of one node. -/
def withExpected (heights : Table Nat Binary64) (n : OutlineNode) : Table Nat Binary64 :=
  n.expectedHeight?.elim heights (heights.insert n.id)

theorem expectedHeights_eq (root : OutlineNode) :
    root.expectedHeights = root.nodes.foldl withExpected .empty := by
  unfold expectedHeights
  congr 1
  funext heights n
  unfold withExpected expectedHeight?
  cases n.shownText? with
  | none => cases n.view.height.isFixed <;> rfl
  | some t => cases n.view.height.isFixed <;> rfl

theorem find?_foldl_withExpected {ks : List OutlineNode} {id : Nat} (hids : ∀ k ∈ ks, k.id ≠ id)
    (heights : Table Nat Binary64) :
    (ks.foldl withExpected heights).find? id = heights.find? id := by
  induction ks generalizing heights with
  | nil => rfl
  | cons k ks ih =>
    obtain ⟨hk, hks⟩ := List.forall_mem_cons.mp hids
    rw [List.foldl_cons, ih hks, withExpected]
    cases k.expectedHeight? with
    | none => rfl
    | some height =>
      rw [Option.elim_some, Table.find?_insert, if_neg hk]

/-- The height on record at first. -/
theorem find?_expectedHeights {root n : OutlineNode} (hids : (root.nodes.map (·.id)).Nodup)
    (hn : n ∈ root.nodes) : root.expectedHeights.find? n.id = n.expectedHeight? := by
  obtain ⟨before, after, hnodes, hbefore, hafter⟩ := exists_split hids hn
  have hnone : (before.foldl withExpected .empty).find? n.id = none :=
    find?_foldl_withExpected hbefore .empty
  rw [expectedHeights_eq, hnodes, List.foldl_append, List.foldl_cons,
    find?_foldl_withExpected hafter, withExpected]
  cases n.expectedHeight? with
  | none => exact hnone
  | some height => rw [Option.elim_some, Table.find?_insert, if_pos rfl]

end OutlineNode

theorem OutlineNode.exists_slot_of_shownText? {n : OutlineNode} {t : TextSlot}
    (h : n.shownText? = some t) : n.slot = .text t := by
  have hshown := n.shown_of_shownText? h
  rw [shownText?, hshown] at h
  cases hslot : n.slot with
  | text t' =>
    rw [hslot] at h
    exact congrArg Slot.text (Option.some.inj h)
  | _ => simp [hslot] at h

variable {σ : Type} [RelationSolver σ]

/-- On a board with the constraints of an outline the expected heights are on record. -/
theorem Measured.isRecorded_start {sizes : ImageSizes} {scale : Binary64} {root : OutlineNode}
    {board : Board σ} (hregular : ∀ n ∈ root.nodes, n.IsRegular)
    (hids : (root.nodes.map (·.id)).Nodup) (hsound : board.IsSound)
    (hsheet : board.sheet = Sheet.editAll [] (Rules.ofCard sizes scale root)) :
    Measured.IsRecorded root.nodes ⟨board, root.expectedHeights⟩ := by
  refine ⟨hsound, hids, fun n hn hshown => ?_, fun n hn hshown hflexible => ?_⟩
  · obtain ⟨t, ht⟩ := Option.isSome_iff_exists.mp hshown
    rw [Measured.records_iff hsound, OutlineNode.find?_expectedHeights hids hn, hsheet,
      Rules.ofOwner_ofCard (o := .text n.id) (by simp) hregular hids hn
        (n.shown_of_shownText? ht) rfl,
      OutlineNode.exists_slot_of_shownText? ht, OutlineNode.expectedHeight?, ht]
    cases hfixed : n.view.height.isFixed <;>
      cases hwidth : n.view.width.isFixed <;>
        simp [Rules.content, Rules.text, hfixed, hwidth, Instruction.given]
  · rw [OutlineNode.find?_expectedHeights hids hn, OutlineNode.expectedHeight?, hflexible]
    simpa using hshown

/-! ## What settling makes of them -/

/-- The lines of a text, if the node shows one, are those at the width that a solution gives it. -/
def LayoutNode.HasLinesOf (m : TextMeasurer) (solution : Solution) (t : LayoutNode)
    (n : OutlineNode) : Prop :=
  t.id = n.id ∧ ∀ slot, n.shownText? = some slot → ∃ text, t.content = .text text ∧
    text.lines = m.wrap slot.font (wrapWidth solution n) slot.maxLines slot.text.toList

theorem Drawing.Draws.hasLinesOf {d : Drawing} {t : LayoutNode} {n : OutlineNode}
    (h : d.Draws t n) : t.HasLinesOf d.measurer d.solution n := by
  refine ⟨h.id_eq, fun slot hslot => ?_⟩
  have hshown := n.shown_of_shownText? hslot
  have htext := n.exists_slot_of_shownText? hslot
  refine ⟨_, by rw [h.content_eq, content, htext], ?_⟩
  simp [hshown]

/-- Texts that settled are consistent. Whatever the measurer and the solver, settling makes some
rounds from a board with heights on record. After each of them the height on record for a text that
is shown is the one that the constraint under its one handle asks for, and no other constraint than
those of shown texts with handles was taken out or put in. The lines of the tree are the texts
wrapped at the widths of the solution found last. If the last round found nothing to change, as it
did whenever fewer rounds than allowed were made, then the lines of each text of flexible height are
as high as its constraint asks for, up to the tolerance. -/
theorem settled_texts_are_consistent (s : LayoutSettings) (strip? : String → Option StripState)
    (root : OutlineNode) (images : Table Nat LoadedImage) {start : Measured σ}
    (h : start.IsRecorded root.nodes) :
    ∃ live rounds last rested,
      settle s strip? root images start = .ok live ∧
      Measured.Rounds s.measurer root.nodes s.textPasses start rounds last rested ∧
      (∀ t ∈ rounds, t.IsRecorded root.nodes ∧
        t.board.textOwners root.nodes = start.board.textOwners root.nodes ∧
        t.board.others (start.board.textOwners root.nodes) =
          start.board.others (start.board.textOwners root.nodes)) ∧
      live.measured = { last with board := last.board.solve.2 } ∧
      live.measured.IsRecorded root.nodes ∧
      List.Forall₂ (LayoutNode.HasLinesOf s.measurer last.board.solve.1) live.tree.nodes
        root.nodes ∧
      (rounds.length < s.textPasses → rested = true) ∧
      (rested = true → ∀ n ∈ root.nodes, ∀ slot, n.shownText? = some slot →
        n.view.height.isFixed = false → ∃ handle height,
          live.measured.board.handles (.text n.id) = [handle] ∧
          (∀ c, (handle, c) ∈ live.measured.board.system.present ↔
            c = Rules.textHeight n.id n.view height) ∧
          let lines := s.measurer.wrap slot.font (wrapWidth last.board.solve.1 n) slot.maxLines
            slot.text.toList
          ¬heightTolerance < (s.measurer.linesHeight slot.font lines.length - height).abs) := by
  obtain ⟨rounds, last, rested, hlast, hrounds⟩ := h.exists_rounds s.measurer s.textPasses
  obtain ⟨hend, heach⟩ := hrounds.corrects h
  have hrecorded := hend.solve.recorded
  refine ⟨⟨{ last with board := last.board.solve.2 }, root, images,
    Drawing.tree ⟨last.board.solve.1, s.measurer, images, strip?⟩ root⟩, rounds, last, rested, ?_,
    hrounds, fun t ht => ⟨(heach t ht).recorded, (heach t ht).owners, (heach t ht).others⟩, rfl,
    hrecorded, ?_, hrounds.rested_of_lt, ?_⟩
  · rw [settle, hlast]
    rfl
  · exact (Drawing.forall₂_tree _ root).imp fun _ _ hdraws => hdraws.hasLinesOf
  · rintro rfl n hn slot hslot hflexible
    have hshown : n.shownText?.isSome := Option.isSome_iff_exists.mpr ⟨slot, hslot⟩
    obtain ⟨height, hheight⟩ :=
      Option.isSome_iff_exists.mp (hrecorded.flexible n hn hshown hflexible)
    obtain ⟨handle, hhandle, honly⟩ := (hrecorded.records n hn hshown).active height hheight
    exact ⟨handle, height, hhandle, honly, hrounds.fits n hn slot height hslot hheight⟩

/-- A card with one text: its height is on record when its layout begins to settle. -/
theorem settled_texts_are_consistent_of_text :
    let s : LayoutSettings := {}
    let text : Item := .text false ⟨View.plain, "some words", 0, .plain, .topLeft⟩
    let root := Card.bodyOutline s .empty ⟨"m", 0⟩ [text]
      (CarouselCache.empty : CarouselCache (Card (Linear.Tableau .double)))
    (∃ n ∈ root.nodes, n.shownText?.isSome ∧ n.view.height.isFixed = false) ∧
    ∃ (board : Board (Linear.Tableau .double)) (live : LiveLayout (Linear.Tableau .double)),
      Board.empty.run (Rules.ofCard .empty 2 root) = .ok board ∧
      Measured.IsRecorded root.nodes ⟨board, root.expectedHeights⟩ ∧
      settle s (fun _ => none) root .empty ⟨board, root.expectedHeights⟩ = .ok live ∧
      live.measured.IsRecorded root.nodes ∧
      ∃ solution, List.Forall₂ (LayoutNode.HasLinesOf s.measurer solution) live.tree.nodes
        root.nodes := by
  intro s text root
  constructor
  · let n := (Card.arrange s .empty ⟨"m", 0⟩ text
      ((Card.bodySiblings s .empty [text]).place 1 0 text)
      (CarouselCache.empty : CarouselCache (Card (Linear.Tableau .double)))).1
    have hn : n ∈ root.nodes := by
      refine OutlineNode.mem_nodes.mpr (.inr ⟨n, ?_, n.self_mem_nodes⟩)
      show n ∈ (Card.arrangeAll _ _ _ _ _ _ _ _).1
      rw [Card.arrangeAll_cons]
      exact List.mem_cons_self
    have hhidden : ((Card.bodySiblings s .empty [text]).place 1 0 text).hidden = false := by
      decide +kernel
    have hnode : n.hidden = false ∧ ∃ slot, n.slot = .text slot ∧ n.view = View.plain := by
      have hplaced : n = Place.node _ _ (.text _) [] := congrArg Prod.fst (Card.arrange_text ..)
      rw [hplaced]
      exact ⟨hhidden, _, rfl, rfl⟩
    obtain ⟨hshown, slot, hslot, hview⟩ := hnode
    refine ⟨n, hn, ?_, ?_⟩
    · simp [OutlineNode.shownText?, hshown, hslot]
    · rw [hview]
      rfl
  · obtain ⟨board, hboard, hsound, hsheet⟩ := Board.isSound_empty.exists_run
      (σ := Linear.Tableau .double) (Rules.ofCard .empty 2 root)
    have hstart : Measured.IsRecorded root.nodes ⟨board, root.expectedHeights⟩ :=
      Measured.isRecorded_start (Card.isRegular_bodyOutline _ _ _ _ _)
        (Card.nodup_ids_bodyOutline _ _ _ _ _) hsound hsheet
    obtain ⟨live, -, last, -, hsettle, -, -, -, hrecorded, hlines, -⟩ :=
      settled_texts_are_consistent s (fun _ => none) root .empty hstart
    exact ⟨board, live, hboard, hstart, hsettle, hrecorded, _, hlines⟩

end MessageCard
