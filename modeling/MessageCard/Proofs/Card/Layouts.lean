import MessageCard.Proofs.Card.Reach

/-!
# What lasts in layouts

A layout is settled when a body is rendered, scrolled, and settled again for a bitmap, in itself or
on one of its pages. What a layout has from the first on and keeps in each of these steps is had by
every layout of every card that comes about, and on all pages of such a card.
-/
namespace MessageCard
namespace Card

variable {σ : Type}

/-- A card whose layouts all have a property, on all pages that it keeps too. -/
inductive ShowsOnly (P : LiveLayout σ → Prop) : Card σ → Prop
  | intro {c : Card σ} (live : ∀ l, c.live = some l → P l)
      (previous : ∀ key (state : CarouselState (Card σ)),
        c.carousels.previous.find? key = some state →
        ∀ (i : Nat) (p : Card σ), state.pages[i]? = some p → ShowsOnly P p)
      (current : ∀ key (state : CarouselState (Card σ)),
        c.carousels.current.find? key = some state →
        ∀ (i : Nat) (p : Card σ), state.pages[i]? = some p → ShowsOnly P p) : ShowsOnly P c

namespace ShowsOnly

variable {P : LiveLayout σ → Prop} {c : Card σ}

theorem of (hlive : ∀ l, c.live = some l → P l)
    (hpages : c.carousels.AllPages fun _ _ => ShowsOnly P) : c.ShowsOnly P :=
  .intro hlive hpages.previous hpages.current

theorem live (h : c.ShowsOnly P) {l : LiveLayout σ} (hl : c.live = some l) : P l := by
  cases h with
  | intro live previous current => exact live l hl

theorem pages (h : c.ShowsOnly P) : c.carousels.AllPages fun _ _ => ShowsOnly P := by
  cases h with
  | intro live previous current => exact ⟨previous, current⟩

theorem new (s : LayoutSettings) : (Card.new s : Card σ).ShowsOnly P :=
  .of (fun _ h => by cases h) CarouselCache.allPages_empty

theorem withMaxWidth (h : c.ShowsOnly P) (width : Binary64) :
    (c.withMaxWidth width).ShowsOnly P :=
  .of (fun _ hl => h.live hl) h.pages

/-- The card at the end of a way is one of those pages. -/
theorem of_cardAt? (h : c.ShowsOnly P) {way : List (Nat × Nat)} {d : Card σ}
    (hd : c.cardAt? way = some d) : d.ShowsOnly P := by
  induction way generalizing c with
  | nil =>
    cases hd
    exact h
  | cons hop way ih =>
    obtain ⟨carousel, page⟩ := hop
    obtain ⟨state, inner, hstate, hinner, hrest⟩ := exists_of_cardAt?_cons hd
    obtain ⟨k, spacing, extent, -, -, hkept⟩ := exists_of_shownCarousel? hstate
    exact ih (h.pages.get hkept hinner) hrest

end ShowsOnly

variable [RelationSolver σ]

/-- The board of a layout as it is settled again: as it was, or with other constraints for one owner
that is not a text. -/
def IsReadied (b t : Board σ) : Prop :=
  t = b ∨ ∃ o cs, (∀ k, o ≠ .text k) ∧ b.follow (.replace o cs) = .ok t

/-- A property that layouts have from the first on, and keep when they are scrolled and when they
are settled again. -/
structure Lasts (P : LiveLayout σ → Prop) : Prop where
  rendered : ∀ {s : LayoutSettings} {sizes : ImageSizes} {identity : CardIdentity}
    {items : List Item} {cs : CarouselCache (Card σ)} {m : TextMeasurer}
    {strip? : String → Option StripState} {images : Table Nat LoadedImage} {board : Board σ}
    {l : LiveLayout σ}, board.IsSound →
    board.sheet = Sheet.editAll [] (Rules.ofCard sizes s.displayScale
      (bodyOutline s sizes identity items cs)) →
    l.IsSettled m strip? (bodyOutline s sizes identity items cs) images
      ⟨board, (bodyOutline s sizes identity items cs).expectedHeights⟩ → P l
  scrolled : ∀ {l : LiveLayout σ}, P l → ∀ carousel scroll,
    P { l with tree := { l.tree with root := l.tree.root.withScroll carousel scroll } }
  resettled : ∀ {c : Card σ} {l t : LiveLayout σ} {m : TextMeasurer}
    {strip? : String → Option StripState} {images : Table Nat LoadedImage} {board : Board σ},
    c.IsLaidOut l → P l → IsReadied l.measured.board board →
    t.IsSettled m strip? l.root images { l.measured with board } → P t

namespace Lasts

variable {P : LiveLayout σ → Prop} {c : Card σ}

theorem survivesRendering (hP : Lasts P) : SurvivesRendering fun _ => ShowsOnly P where
  pages h := h.pages
  fresh _ _ _ _ := .new _
  withMaxWidth h width := h.withMaxWidth width
  cleared h := .of (fun _ hl => by cases hl) h.pages
  body sizes identity items {_ c} h hpages := by
    obtain ⟨l, board, hrendered, hsound, hsheet, hsettled⟩ :=
      exists_settled_renderBody c sizes identity items
    rw [hrendered]
    refine .of (fun l' hl' => ?_) hpages.endPass
    cases hl'
    exact hP.rendered hsound hsheet hsettled

theorem scrollTo (hP : Lasts P) (hc : c.ShowsOnly P) {t : Card σ} {node : Nat} {offset : Binary64}
    (h : c.scrollTo? node offset = some t) : t.ShowsOnly P := by
  obtain ⟨l, n, spacing, extent, state, hl, -, -, -, hstate, rfl⟩ := exists_of_scrollTo? h
  refine .of (fun l' hl' => ?_) (hc.pages.put fun _ _ => hc.pages.get hstate)
  cases hl'
  exact hP.scrolled (hc.live hl) n.id (max offset 0)

/-- What lasts is kept when a card takes a bitmap. -/
theorem takes (hP : Lasts P) (hkept : c.IsKept) (hc : c.ShowsOnly P) {sizes : ImageSizes}
    {node : Nat} {url : String} {bitmap : Bitmap} {hops : List (Nat × Nat)} {a : Accepted σ}
    (h : Takes sizes node url bitmap hops c a) : a.card.ShowsOnly P := by
  induction h with
  | @here c l t n i board hl hn hid hshown hslot hurl hboard ht =>
    refine .of (fun l' hl' => ?_) hc.pages
    cases hl'
    exact hP.resettled (hkept.isLaidOut hl) (hc.live hl) (.inr ⟨_, _, by simp, hboard⟩) ht
  | @page c inner l t n spacing extent state carousel page hops a board hl hn hid hshown hslot
      hstate hinner ha hboard ht ih =>
    have hinner := ih (hkept.page hstate (List.mem_of_getElem? hinner))
      (hc.pages.get hstate hinner)
    have hreadied : IsReadied l.measured.board board := by
      unfold pageBoard at hboard
      split at hboard
      case isTrue =>
        cases hboard
        exact .inl rfl
      case isFalse => exact .inr ⟨_, _, by simp, hboard⟩
    refine .of (fun l' hl' => ?_) (hc.pages.put fun i p hp => ?_)
    · cases hl'
      exact hP.resettled (hkept.isLaidOut hl) (hc.live hl) hreadied ht
    · rcases List.mem_or_eq_of_mem_set (List.mem_of_getElem? hp) with hp | rfl
      · obtain ⟨j, hj⟩ := List.getElem?_of_mem hp
        exact hc.pages.get hstate hj
      · exact hinner

/-- All layouts of a card that comes about have what lasts. -/
theorem showsOnly (hP : Lasts P) (h : c.Reachable) : c.ShowsOnly P := by
  induction h with
  | new s => exact .new s
  | withMaxWidth _ maxWidth ih => exact ih.withMaxWidth maxWidth
  | render _ sizes identity t ih => exact hP.survivesRendering.renderPage t identity [] _ ih
  | renderBody _ sizes identity items ih =>
    exact hP.survivesRendering.renderBody identity items [] ih
  | accept hc ha ih => exact hP.takes hc.isKept ih (takes_of_accept hc.isKept ha)
  | scrollTo _ ht ih => exact hP.scrollTo ih ht

end Lasts
end Card
end MessageCard
