import MessageCard.Proofs.Card.Layouts
import MessageCard.Proofs.Layout.Lines

/-!
# Heights on record, in every layout

A layout begins with the heights of its texts on record, settling keeps the record, and it is
settled again only with other constraints for images and carousels. So the heights of all texts are
on record in every layout that a card shows, and each settling of one begins with such a record.
-/
namespace MessageCard

variable {σ : Type} [RelationSolver σ]

/-- What is settled from heights on record has its heights on record. -/
theorem LiveLayout.IsSettled.isRecorded {m : TextMeasurer} {strip? : String → Option StripState}
    {root : OutlineNode} {images : Table Nat LoadedImage} {start : Measured σ} {l : LiveLayout σ}
    (hl : l.IsSettled m strip? root images start) (h : start.IsRecorded root.nodes) :
    l.measured.IsRecorded l.root.nodes := by
  obtain ⟨rounds, last, hlast, hmeasured⟩ := hl.measured
  obtain ⟨ts, u, rested, hu, hrounds⟩ := h.exists_rounds m rounds
  cases hlast.symm.trans hu
  rw [hl.root_eq, hmeasured]
  exact (hrounds.corrects h).1.solve.recorded

namespace Card

/-- Heights are on record from the first on, and stay so. -/
theorem lasts_isRecorded : Lasts fun l : LiveLayout σ => l.measured.IsRecorded l.root.nodes where
  rendered {s sizes identity items cs _ _ _ _ _} hsound hsheet hl :=
    hl.isRecorded (Measured.isRecorded_start (isRegular_bodyOutline s sizes identity items cs)
      (nodup_ids_bodyOutline s sizes identity items cs) hsound hsheet)
  scrolled hl _ _ := hl
  resettled _ hl hboard ht := by
    refine ht.isRecorded ?_
    obtain rfl | ⟨o, cs, ho, hfollow⟩ := hboard
    · exact hl
    · exact hl.replace ho hfollow

/-- On every card that comes about, and on every page along the way, the layout that is shown has
the heights of its texts on record. -/
theorem Reachable.isRecorded {c d : Card σ} (hc : c.Reachable) {way : List (Nat × Nat)}
    (hd : c.cardAt? way = some d) {l : LiveLayout σ} (hl : d.live = some l) :
    l.measured.IsRecorded l.root.nodes :=
  ((lasts_isRecorded.showsOnly hc).of_cardAt? hd).live hl

end Card
end MessageCard
