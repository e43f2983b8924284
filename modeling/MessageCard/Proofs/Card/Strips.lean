import MessageCard.Proofs.Card.Extents
import MessageCard.Proofs.Card.Mirror
import MessageCard.Proofs.Layout.Strip

/-!
# Strips of cards

The pages of a carousel are cards, and their strip is measured twice: the layout says where each
page starts, and the constraints are given the extent of all pages together. Both are taken from the
same widths, those of the pages' layouts and nothing for a page that could not be rendered. In exact
arithmetic they agree. A layout drawn from values that satisfy its required constraints has no
negative extent, so its pages do not overlap when they are spaced apart, and none reaches past the
end of the strip.
-/
namespace MessageCard
namespace Card

variable {σ : Type}

/-- The width of the layout that a card shows, and nothing if it shows none. -/
def shownWidth (c : Card σ) : Binary64 := c.tree?.elim 0 (·.width)

/-- The height of the layout that a card shows, and nothing if it shows none. -/
def shownHeight (c : Card σ) : Binary64 := c.tree?.elim 0 (·.height)

/-! ## What is measured -/

theorem pagesExtent_eq (spacing : Binary64) (pages : List (Card σ)) :
    pagesExtent spacing pages =
      ⟨Strip.width spacing (pages.map shownWidth), Strip.height (pages.map shownHeight)⟩ := by
  simp only [pagesExtent, List.map_map]
  rfl

/-- The layout places its pages by the same widths. -/
theorem map_offset_pages (spacing : Binary64) (pages : List (Card σ)) :
    (Drawing.pages spacing (pages.map tree?)).map (·.offset) =
      Strip.offsets spacing (pages.map shownWidth) := by
  have hwidths : (pages.map tree?).map (fun t => t.elim (0 : Binary64) (·.width)) =
      pages.map shownWidth := List.map_map
  have hlength : (Strip.offsets spacing (pages.map shownWidth)).length ≤
      (pages.map tree?).length := by
    simp [Strip.offsets]
  rw [Drawing.pages, hwidths, ← List.map_uncurry_zip_eq_zipWith, List.map_map]
  exact List.map_fst_zip hlength

/-- The height of the extent is the greatest of the pages' heights and zero. -/
theorem isGreatest_pagesExtent_height (spacing : Binary64) (pages : List (Card σ)) :
    IsGreatest {h | h = 0 ∨ ∃ p ∈ pages, p.shownHeight.value = h}
      (pagesExtent spacing pages).height.value := by
  have hgreatest := Strip.isGreatest_height (pages.map fun p => p.shownHeight.value)
  have hheight : (pagesExtent spacing pages).height.value =
      Strip.height (pages.map fun p => p.shownHeight.value) := by
    rw [pagesExtent_eq, Strip.value_height, List.map_map]
    rfl
  simpa only [hheight, List.mem_cons, List.mem_map] using hgreatest

/-- Unless all heights are negative, the extent is as high as the highest page. -/
theorem isGreatest_height_of_nonneg (spacing : Binary64) {pages : List (Card σ)}
    (h : ∃ p ∈ pages, 0 ≤ p.shownHeight.value) :
    IsGreatest {h | ∃ p ∈ pages, p.shownHeight.value = h}
      (pagesExtent spacing pages).height.value := by
  obtain ⟨hmem, hbound⟩ := isGreatest_pagesExtent_height spacing pages
  refine ⟨?_, fun x hx => hbound (.inr hx)⟩
  rcases hmem with hzero | hpage
  · obtain ⟨p, hp, hnonneg⟩ := h
    have hle : p.shownHeight.value ≤ 0 := hzero ▸ hbound (.inr ⟨p, hp, rfl⟩)
    exact ⟨p, hp, hzero ▸ le_antisymm hle hnonneg⟩
  · exact hpage

/-! ## Exact arithmetic -/

/-- The widths of pages as exact numbers. -/
def exactWidths (pages : List (Card σ)) : List Rat := pages.map fun p => p.shownWidth.value

section Exact

variable {spacing : Binary64} {pages : List (Card σ)} {i : Nat} {p : Card σ} {x : Rat}

@[simp] theorem length_exactWidths (pages : List (Card σ)) :
    (exactWidths pages).length = pages.length :=
  List.length_map _

theorem getElem?_exactWidths (hp : pages[i]? = some p) :
    (exactWidths pages)[i]? = some p.shownWidth.value := by
  simp [exactWidths, hp]

@[simp] theorem length_exactOffsets (spacing : Rat) (pages : List (Card σ)) :
    (Strip.offsets spacing (exactWidths pages)).length = pages.length :=
  (Strip.length_offsetsFrom spacing 0 _).trans (length_exactWidths pages)

/-- The next page starts a spacing behind the end of a page. -/
theorem exactOffset_succ (hp : pages[i]? = some p)
    (hx : (Strip.offsets spacing.value (exactWidths pages))[i]? = some x)
    (hi : i + 1 < pages.length) :
    (Strip.offsets spacing.value (exactWidths pages))[i + 1]? =
      some (x + p.shownWidth.value + spacing.value) := by
  rw [add_assoc]
  exact Strip.getElem?_offsetsFrom_succ hx (getElem?_exactWidths hp)
    (hi.trans_eq (length_exactWidths pages).symm)

/-- The strip ends where its last page does. -/
theorem exactWidth_eq (hp : pages.getLast? = some p)
    (hx : (Strip.offsets spacing.value (exactWidths pages)).getLast? = some x) :
    Strip.width spacing.value (exactWidths pages) = x + p.shownWidth.value := by
  refine Strip.width_eq_of_getLast? hx ?_
  rw [exactWidths, List.getLast?_map, hp]
  rfl

/-- With a spacing that is not negative, a page ends before the next one starts. -/
theorem end_le_next (hspacing : 0 ≤ spacing.value) (hp : pages[i]? = some p)
    (hx : (Strip.offsets spacing.value (exactWidths pages))[i]? = some x) {y : Rat}
    (hy : (Strip.offsets spacing.value (exactWidths pages))[i + 1]? = some y) :
    x + p.shownWidth.value ≤ y := by
  have hi : i + 1 < pages.length :=
    (List.getElem?_eq_some_iff.mp hy).1.trans_eq (length_exactOffsets _ pages)
  obtain rfl := Option.some.inj (hy.symm.trans (exactOffset_succ hp hx hi))
  exact le_add_of_nonneg_right hspacing

/-- Where no width is negative either, it ends before all later ones start, and within the strip. -/
theorem pages_apart (hspacing : 0 ≤ spacing.value) (hnonneg : ∀ q ∈ pages, 0 ≤ q.shownWidth.value)
    (hp : pages[i]? = some p)
    (hx : (Strip.offsets spacing.value (exactWidths pages))[i]? = some x) :
    x + p.shownWidth.value ≤ Strip.width spacing.value (exactWidths pages) ∧
      ∀ (j : Nat) (y : Rat), i < j →
        (Strip.offsets spacing.value (exactWidths pages))[j]? = some y →
        x + p.shownWidth.value ≤ y := by
  have hwidths : ∀ w ∈ exactWidths pages, 0 ≤ w := List.forall_mem_map.mpr hnonneg
  have hw := getElem?_exactWidths hp
  exact ⟨Strip.end_le_width hspacing hwidths hx hw, fun j y hij hy =>
    Strip.end_le_of_offsets hspacing hwidths hij hx hw hy⟩

/-- Where the strip fits into doubles, its pages are laid out at the exact offsets, and the extent
has the exact width. -/
theorem exact_of_fitsDoubles {e : Int}
    (h : Strip.FitsDoubles e spacing 0 (pages.map shownWidth)) :
    (Drawing.pages spacing (pages.map tree?)).map (·.offset.value) =
        Strip.offsets spacing.value (exactWidths pages) ∧
      (pagesExtent spacing pages).width.value =
        Strip.width spacing.value (exactWidths pages) := by
  have hwidths : (pages.map shownWidth).map (·.value) = exactWidths pages := List.map_map
  constructor
  · have hplaces := congrArg (List.map (·.value)) (map_offset_pages spacing pages)
    rw [List.map_map] at hplaces
    exact hplaces.trans (h.value_offsetsFrom.trans
      (congrArg (Strip.offsets spacing.value) hwidths))
  · rw [pagesExtent_eq, h.value_width, hwidths]

end Exact

/-! ## The two measures agree -/

/-- The offsets of a layout's pages and the extent for its constraints, for any pages and any
spacing. Both are measured by the same widths. In exact arithmetic the first page starts at zero,
every other page a spacing behind the end of the one before it, and the strip ends where its last
page does; its height is that of its highest page, unless all heights are negative. So with a
spacing that is not negative a page ends before the next one starts, and where no width is negative,
before every later one and within the strip. Where the strip fits into doubles, these are the
numbers that are computed. -/
theorem strip_measures_agree (spacing : Binary64) (pages : List (Card σ)) :
    let shown := Drawing.pages spacing (pages.map tree?)
    let extent := pagesExtent spacing pages
    let offsets := Strip.offsets spacing.value (exactWidths pages)
    let total := Strip.width spacing.value (exactWidths pages)
    (shown.map (·.tree) = pages.map tree? ∧
      shown.map (·.offset) = Strip.offsets spacing (pages.map shownWidth) ∧
      extent.width = Strip.width spacing (pages.map shownWidth)) ∧
    (offsets.length = pages.length ∧ (pages ≠ [] → offsets.head? = some 0) ∧
      ∀ (i : Nat) (p : Card σ) (x : Rat), pages[i]? = some p → offsets[i]? = some x →
        i + 1 < pages.length → offsets[i + 1]? = some (x + p.shownWidth.value + spacing.value)) ∧
    (∀ (p : Card σ) (x : Rat), pages.getLast? = some p → offsets.getLast? = some x →
      total = x + p.shownWidth.value) ∧
    ((∃ p ∈ pages, 0 ≤ p.shownHeight.value) →
      IsGreatest {h | ∃ p ∈ pages, p.shownHeight.value = h} extent.height.value) ∧
    (0 ≤ spacing.value → ∀ (i : Nat) (p : Card σ) (x : Rat),
      pages[i]? = some p → offsets[i]? = some x →
        (∀ y, offsets[i + 1]? = some y → x + p.shownWidth.value ≤ y) ∧
        ((∀ q ∈ pages, 0 ≤ q.shownWidth.value) → x + p.shownWidth.value ≤ total ∧
          ∀ (j : Nat) (y : Rat), i < j → offsets[j]? = some y → x + p.shownWidth.value ≤ y)) ∧
    (∀ e, Strip.FitsDoubles e spacing 0 (pages.map shownWidth) →
      shown.map (·.offset.value) = offsets ∧ extent.width.value = total) := by
  intro shown extent offsets total
  have hextent : extent.width = Strip.width spacing (pages.map shownWidth) :=
    congrArg Extent.width (pagesExtent_eq spacing pages)
  have hfirst : pages ≠ [] → offsets.head? = some 0 := fun hpages =>
    Strip.head?_offsetsFrom (by simpa [exactWidths] using hpages)
  refine ⟨⟨Drawing.map_tree_pages _ _, map_offset_pages spacing pages, hextent⟩,
    ⟨length_exactOffsets _ pages, hfirst, fun i p x => exactOffset_succ⟩,
    fun p x => exactWidth_eq, isGreatest_height_of_nonneg spacing, ?_,
    fun e => exact_of_fitsDoubles⟩
  intro hspacing i p x hp hx
  exact ⟨fun y => end_le_next hspacing hp hx, fun hnonneg => pages_apart hspacing hnonneg hp hx⟩

/-- Three pages with gaps of 10, of which the second could not be rendered. -/
theorem strip_measures_agree_of_missing_page :
    let page (width height : Binary64) : Card (Linear.Tableau .exact) :=
      { (new {}) with live := some ⟨⟨.empty, .empty⟩,
        ⟨0, "body", View.plain, false, false, .root, []⟩, .empty, ⟨width, height,
        ⟨0, "body", .root, ⟨0, 0, width, height⟩, ⟨0, 0, width, height⟩, View.plain.nodeStyle, none,
          false, []⟩⟩⟩ }
    let first := page 240 80
    let last := page 100 120
    let pages := [first, new {}, last]
    let extent := pagesExtent 10 pages
    (∀ p ∈ pages, 0 ≤ p.shownWidth.value) ∧ Strip.FitsDoubles 0 10 0 (pages.map shownWidth) ∧
      (Drawing.pages 10 (pages.map tree?)).map (·.offset.value) = [0, 250, 260] ∧
      extent.width.value = 260 + last.shownWidth.value ∧
      IsGreatest {h | ∃ p ∈ pages, p.shownHeight.value = h} extent.height.value ∧
      0 + first.shownWidth.value ≤ 250 ∧ 0 + first.shownWidth.value ≤ 260 ∧
      0 + first.shownWidth.value ≤ extent.width.value := by
  intro page first last pages extent
  have hoffsets : Strip.offsets (10 : Binary64).value (exactWidths pages) = [0, 250, 260] := by
    decide +kernel
  have hspacing : (10 : Binary64).value = 10 := by decide +kernel
  have hnonneg : ∀ p ∈ pages, 0 ≤ p.shownWidth.value := by decide +kernel
  have hheight : ∃ p ∈ pages, 0 ≤ p.shownHeight.value := ⟨new {}, by simp [pages], le_rfl⟩
  have hwhole : ∀ w ∈ pages.map shownWidth, w.value.den = 1 := by decide +kernel
  have hfits : Strip.FitsDoubles 0 10 0 (pages.map shownWidth) := {
    place := by decide
    spacing_at := ⟨10, by rw [hspacing]; norm_num⟩
    start_at := ⟨0, by decide +kernel⟩
    widths_at := fun w hw => ⟨w.value.num, by
      rw [zpow_zero, mul_one, Rat.coe_int_num_of_den_eq_one (hwhole w hw)]⟩
    digits := by decide +kernel }
  obtain ⟨-, -, htotal, hgreatest, happart, hdoubles⟩ := strip_measures_agree 10 pages
  obtain ⟨hplaces, hextent⟩ := hdoubles 0 hfits
  have hend := hextent.trans (htotal last 260 rfl (by rw [hoffsets]; rfl))
  obtain ⟨hnext, hlater⟩ :=
    happart (by rw [hspacing]; norm_num) 0 first 0 rfl (by rw [hoffsets]; rfl)
  obtain ⟨hwithin, hothers⟩ := hlater hnonneg
  exact ⟨hnonneg, hfits, hplaces.trans hoffsets, hend, hgreatest hheight,
    hnext 250 (by rw [hoffsets]; rfl), hothers 2 260 (by decide) (by rw [hoffsets]; rfl),
    hwithin.trans hextent.ge⟩

/-! ## The strips of a card -/

section Carousels

variable {c d : Card σ} {way : List (Nat × Nat)} {carousel : Nat}
  {state : CarouselState (Card σ)}

/-- The way to a card goes on to the pages of its carousels. -/
theorem cardAt?_append_page (hd : c.cardAt? way = some d)
    (hstate : d.shownCarousel? carousel = some state) {page : Nat} {p : Card σ}
    (hp : state.pages[page]? = some p) : c.cardAt? (way ++ [(carousel, page)]) = some p := by
  induction way generalizing c with
  | nil =>
    cases hd
    exact cardAt?_cons hstate hp
  | cons hop way ih =>
    obtain ⟨first, index⟩ := hop
    obtain ⟨kept, inner, hkept, hinner, hrest⟩ := exists_of_cardAt?_cons hd
    rw [List.cons_append, cardAt?_cons hkept hinner]
    exact ih hrest

variable [RelationSolver σ]

/-- No layout that was drawn from values which satisfy its required constraints is shown with a
negative extent. -/
theorem Reachable.shown_nonneg (hc : c.Reachable) (hd : c.cardAt? way = some d)
    (hvalues : ∀ l, d.live = some l → l.IsSatisfied) :
    0 ≤ d.shownWidth.value ∧ 0 ≤ d.shownHeight.value := by
  cases hlive : d.live with
  | none =>
    rw [shownWidth, shownHeight, tree?, hlive]
    exact ⟨le_rfl, le_rfl⟩
  | some l =>
    have hextent := hc.extent_nonneg hd hlive (hvalues l hlive)
    simpa [shownWidth, shownHeight, tree?, hlive] using hextent

/-- The pages of a carousel that a card shows, or a page along the way, when their layouts were
drawn from values which satisfy the required constraints: with a spacing that is not negative each
page ends before all later ones start and within the strip, which is as high as the highest page. -/
theorem Reachable.strip_of_satisfied (hc : c.Reachable) (hd : c.cardAt? way = some d)
    (hstate : d.shownCarousel? carousel = some state)
    (hvalues : ∀ p ∈ state.pages, ∀ l, p.live = some l → l.IsSatisfied) {spacing : Binary64}
    (hspacing : 0 ≤ spacing.value) :
    let offsets := Strip.offsets spacing.value (exactWidths state.pages)
    (∀ (i : Nat) (p : Card σ) (x : Rat), state.pages[i]? = some p → offsets[i]? = some x →
      x + p.shownWidth.value ≤ Strip.width spacing.value (exactWidths state.pages) ∧
        ∀ (j : Nat) (y : Rat), i < j → offsets[j]? = some y → x + p.shownWidth.value ≤ y) ∧
    (state.pages ≠ [] → IsGreatest {h | ∃ p ∈ state.pages, p.shownHeight.value = h}
      (pagesExtent spacing state.pages).height.value) := by
  have hshown : ∀ p ∈ state.pages, 0 ≤ p.shownWidth.value ∧ 0 ≤ p.shownHeight.value := by
    intro p hp
    obtain ⟨page, hpage⟩ := List.mem_iff_getElem?.mp hp
    exact hc.shown_nonneg (cardAt?_append_page hd hstate hpage) (hvalues p hp)
  refine ⟨fun i p x => pages_apart hspacing fun q hq => (hshown q hq).1, fun hpages => ?_⟩
  obtain ⟨p, hp⟩ := List.exists_mem_of_ne_nil _ hpages
  exact isGreatest_height_of_nonneg spacing ⟨p, hp, (hshown p hp).2⟩

/-- What a rendering lays out has the extents of the pages that are kept. -/
theorem showsKept_render (c : Card σ) (sizes : ImageSizes) (identity : CardIdentity) (t : Template)
    {l : LiveLayout σ} (hl : (c.render sizes identity t).1.live = some l) {n : OutlineNode}
    (hn : n ∈ l.root.nodes) :
    ShowsKept (c.render sizes identity t).1.identity (c.render sizes identity t).1.carousels n := by
  obtain ⟨version, _ | items⟩ := t
  · rw [render, renderPage] at hl
    cases hl
  · cases hversion : supportedVersions.contains version with
    | true =>
      obtain ⟨l', hrendered, hroot⟩ := exists_renderBody c sizes identity items
      rw [render_eq_renderBody sizes identity version items c hversion, hrendered] at hl ⊢
      cases hl
      exact showsKept_bodyOutline items _ n (hroot ▸ hn)
    | false =>
      rw [render, renderPage, hversion] at hl
      cases hl

/-- When a template was rendered, the layout shows the pages that are kept for each carousel at the
places of their strip, and its constraints were given the extent of the same pages. -/
theorem Reachable.strips_of_render (hc : c.Reachable) (sizes : ImageSizes)
    (identity : CardIdentity) (t : Template) {l : LiveLayout σ}
    (hl : (c.render sizes identity t).1.live = some l) {n : OutlineNode} (hn : n ∈ l.root.nodes)
    (hshown : n.hidden = false) {spacing : Binary64} {extent : Extent}
    (hslot : n.slot = .carousel spacing extent) :
    ∃ state, (c.render sizes identity t).1.carousel? n.path = some state ∧
      extent = pagesExtent spacing state.pages ∧ ∃ k ∈ l.tree.nodes, k.id = n.id ∧
        k.content = .carousel spacing state.scroll
          (Drawing.pages spacing (state.pages.map tree?)) := by
  obtain ⟨state, hstate, hextent⟩ :=
    showsKept_render c sizes identity t hl hn hshown spacing extent hslot
  have hlaid := (hc.render sizes identity t).isKept.isLaidOut hl
  obtain ⟨k, hk, hshows⟩ := (exists_of_forall₂ hlaid.shows).2 n hn
  exact ⟨state, hstate, hextent, k, hk, hshows.id_eq, hshows.content_kept hshown hslot hstate⟩

end Carousels

end Card
end MessageCard
