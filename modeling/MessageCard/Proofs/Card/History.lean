import MessageCard.Proofs.Card.Reach
import MessageCard.Proofs.Layout.Bare

/-!
# Rendering forgets what came before

A card keeps the cards on the pages of its carousels from one rendering to the next, and those keep
their own pages. What a rendering makes of them does not depend on what they showed before: a card
that has a long history and a new one of the same settings get the same outline, so the same
constraints, the same solution and the same bare layout. The argument runs two renderings side by
side, on caches that look alike from outside, level by level through the pages.

It needs one thing of the history: that pages were made with the settings of their card, up to
widths, which are set anew in every rendering.
-/
namespace MessageCard
namespace Card

variable {σ : Type}

/-! ## Settings along the pages -/

/-- A card and all pages that it keeps have given settings, up to their widths. -/
inductive HasSettings (s : LayoutSettings) : Card σ → Prop
  | intro {c : Card σ} (width : Binary64) (settings : c.settings = { s with maxWidth := width })
      (previous : ∀ key (state : CarouselState (Card σ)),
        c.carousels.previous.find? key = some state →
        ∀ (i : Nat) (p : Card σ), state.pages[i]? = some p → HasSettings s p)
      (current : ∀ key (state : CarouselState (Card σ)),
        c.carousels.current.find? key = some state →
        ∀ (i : Nat) (p : Card σ), state.pages[i]? = some p → HasSettings s p) :
      HasSettings s c

section HasSettings

variable {s : LayoutSettings} {c : Card σ}

theorem HasSettings.of (hsettings : ∃ width, c.settings = { s with maxWidth := width })
    (hpages : c.carousels.AllPages fun _ _ => HasSettings s) : c.HasSettings s := by
  obtain ⟨width, hwidth⟩ := hsettings
  exact .intro width hwidth hpages.previous hpages.current

theorem HasSettings.exists_width (h : c.HasSettings s) :
    ∃ width, c.settings = { s with maxWidth := width } := by
  cases h with
  | intro width settings previous current => exact ⟨width, settings⟩

theorem HasSettings.pages (h : c.HasSettings s) :
    c.carousels.AllPages fun _ _ => HasSettings s := by
  cases h with
  | intro width settings previous current => exact ⟨previous, current⟩

theorem hasSettings_new (s : LayoutSettings) (width : Binary64) :
    (new { s with maxWidth := width } : Card σ).HasSettings s :=
  .of ⟨width, rfl⟩ CarouselCache.allPages_empty

theorem HasSettings.withMaxWidth (h : c.HasSettings s) (width : Binary64) :
    (c.withMaxWidth width).HasSettings s := by
  obtain ⟨before, hbefore⟩ := h.exists_width
  refine .of ⟨width, ?_⟩ h.pages
  rw [Card.withMaxWidth, hbefore]

/-- The settings of a card whose width was set are known altogether. -/
theorem HasSettings.settings_withMaxWidth (h : c.HasSettings s) (width : Binary64) :
    (c.withMaxWidth width).settings = { s with maxWidth := width } := by
  obtain ⟨before, hbefore⟩ := h.exists_width
  rw [Card.withMaxWidth, hbefore]

theorem hasSettings_scrollTo {t : Card σ} {node : Nat} {offset : Binary64} (hc : c.HasSettings s)
    (h : c.scrollTo? node offset = some t) : t.HasSettings s := by
  obtain ⟨l, n, spacing, extent, state, -, -, -, -, hstate, rfl⟩ := exists_of_scrollTo? h
  exact .of hc.exists_width (hc.pages.put fun _ _ => hc.pages.get hstate)

variable [RelationSolver σ]

theorem survivesRendering_hasSettings (s : LayoutSettings) :
    SurvivesRendering fun _ => HasSettings (σ := σ) s where
  pages h := h.pages
  fresh h width _ _ := by
    obtain ⟨before, hbefore⟩ := h.exists_width
    rw [hbefore]
    exact hasSettings_new s width
  withMaxWidth h width := h.withMaxWidth width
  cleared h := .of h.exists_width h.pages
  body sizes identity items {_ c} h hpages := by
    obtain ⟨l, hrendered, -⟩ := exists_renderBody c sizes identity items
    rw [hrendered]
    exact .of h.exists_width hpages.endPass

/-- Bitmaps leave all settings alone. -/
theorem Takes.hasSettings {sizes : ImageSizes} {node : Nat} {url : String} {bitmap : Bitmap}
    {hops : List (Nat × Nat)} {a : Accepted σ} (h : Takes sizes node url bitmap hops c a)
    (hc : c.HasSettings s) : a.card.HasSettings s := by
  induction h with
  | here => exact .of hc.exists_width hc.pages
  | @page c inner l t n spacing extent state carousel page hops a board hl hn hid hshown hslot
      hstate hinner ha hboard ht ih =>
    have hinner := ih (hc.pages.get hstate hinner)
    refine .of hc.exists_width (hc.pages.put fun i p hp => ?_)
    rcases List.mem_or_eq_of_mem_set (List.mem_of_getElem? hp) with hp | rfl
    · obtain ⟨j, hj⟩ := List.getElem?_of_mem hp
      exact hc.pages.get hstate hj
    · exact hinner

/-- The pages of every card that comes about have its settings, up to their widths. -/
theorem Reachable.hasSettings (h : c.Reachable) : ∃ s, c.HasSettings s := by
  induction h with
  | new s => exact ⟨s, hasSettings_new s s.maxWidth⟩
  | withMaxWidth _ maxWidth ih => exact ih.imp fun s hs => hs.withMaxWidth maxWidth
  | render _ sizes identity t ih =>
    exact ih.imp fun s hs => (survivesRendering_hasSettings s).renderPage t identity [] _ hs
  | renderBody _ sizes identity items ih =>
    exact ih.imp fun s hs =>
      (survivesRendering_hasSettings s).renderBody identity items [] hs
  | accept hc ha ih => exact ih.imp fun s hs => (takes_of_accept hc.isKept ha).hasSettings hs
  | scrollTo _ ht ih => exact ih.imp fun s hs => hasSettings_scrollTo hs ht

end HasSettings

/-! ## Cards and caches that look alike -/

/-- What a card shows, without what is carried over. -/
def bareTree? (c : Card σ) : Option LayoutTree := c.tree?.map (·.bare)

/-- Pages that look alike take the same space. -/
theorem pagesExtent_congr {cards others : List (Card σ)}
    (h : cards.map bareTree? = others.map bareTree?) (spacing : Binary64) :
    pagesExtent spacing cards = pagesExtent spacing others := by
  have hmeasure : ∀ (f : LayoutTree → Binary64), (∀ t, f t.bare = f t) → ∀ cs : List (Card σ),
      cs.map (fun c => c.tree?.elim 0 f) = (cs.map bareTree?).map fun t => t.elim 0 f := by
    intro f hf cs
    rw [List.map_map]
    refine List.map_congr_left fun c _ => ?_
    cases hc : c.tree? with
    | none => simp [bareTree?, hc]
    | some t => simp [bareTree?, hc, hf]
  have hwidth := hmeasure (·.width) LayoutOf.width_bare
  have hheight := hmeasure (·.height) LayoutOf.height_bare
  simp only [pagesExtent, List.map_map, Function.comp_def, hwidth, hheight, h]

end Card

namespace CarouselCache

variable {σ : Type}

/-- Caches whose claimed carousels have pages that look alike. -/
def LooksLike (cs ds : CarouselCache (Card σ)) : Prop :=
  ∀ key, (cs.get? key).map (·.pages.map Card.bareTree?) =
    (ds.get? key).map (·.pages.map Card.bareTree?)

variable {cs ds : CarouselCache (Card σ)}

/-- When a rendering begins nothing is claimed, so all caches look alike. -/
theorem looksLike_beginPass (cs ds : CarouselCache (Card σ)) :
    cs.beginPass.LooksLike ds.beginPass :=
  fun _ => rfl

theorem LooksLike.checkout_put (h : cs.LooksLike ds) (key : CarouselKey) (pages : Nat)
    (build : Nat → Card σ) {state other : CarouselState (Card σ)}
    (hpages : state.pages.map Card.bareTree? = other.pages.map Card.bareTree?) :
    ((cs.checkout key pages build).2.put key state).LooksLike
      ((ds.checkout key pages build).2.put key other) := by
  intro k
  rw [get?_put, get?_put]
  split
  case isTrue => rw [Option.map_some, Option.map_some, hpages]
  case isFalse hne =>
    rw [get?_checkout_of_ne hne, get?_checkout_of_ne hne]
    exact h k

/-- Pages claimed from caches that look alike are as many, and look alike where a carousel was
claimed before. -/
theorem LooksLike.claimed (h : cs.LooksLike ds) (key : CarouselKey) (pages : Nat)
    (build : Nat → Card σ) :
    (cs.checkout key pages build).1.pages.length = (ds.checkout key pages build).1.pages.length ∧
      ((cs.checkout key pages build).1.pages.drop pages).map Card.bareTree? =
        ((ds.checkout key pages build).1.pages.drop pages).map Card.bareTree? := by
  have hkey := h key
  cases hc : cs.get? key with
  | none =>
    have hd : ds.get? key = none := by simpa [hc] using hkey.symm
    have hlength := length_claimed hc pages build
    have hlength' := length_claimed hd pages build
    refine ⟨hlength.trans hlength'.symm, ?_⟩
    rw [List.drop_of_length_le hlength.le, List.drop_of_length_le hlength'.le]
  | some state =>
    cases hd : ds.get? key with
    | none => simp [hc, hd] at hkey
    | some other =>
      have hsame : state.pages.map Card.bareTree? = other.pages.map Card.bareTree? := by
        simpa [hc, hd] using hkey
      have hstate : (cs.checkout key pages build).1 = state := by simp [checkout, hc]
      have hother : (ds.checkout key pages build).1 = other := by simp [checkout, hd]
      rw [hstate, hother, List.map_drop, List.map_drop, hsame]
      have hlength := congrArg List.length hsame
      exact ⟨by simpa using hlength, rfl⟩

end CarouselCache

namespace Card

variable {σ : Type}

/-! ## Two renderings side by side -/

theorem bare_strip (state : CarouselState (Card σ)) :
    (strip state).bare = ⟨0, state.pages.map bareTree?⟩ := by
  simp only [strip, StripState.bare, List.map_map]
  rfl

/-- The bare strips are those of the pages in the cache, as they look from outside. -/
theorem bare_strip?_endPass (s : LayoutSettings) (identity : CardIdentity)
    (cs : CarouselCache (Card σ)) (path : String) :
    (strip? (⟨s, identity, cs.endPass, none⟩ : Card σ) path).map StripState.bare =
      ((cs.get? ⟨identity, path⟩).map (·.pages.map bareTree?)).map (⟨0, ·⟩) := by
  have hget : cs.endPass.get? ⟨identity, path⟩ = cs.get? ⟨identity, path⟩ := rfl
  simp only [strip?, carousel?, hget, Option.map_map, Function.comp_def, bare_strip]

variable [RelationSolver σ]

theorem bareTree?_renderPage (sizes : ImageSizes) (identity : CardIdentity) (t : TemplateOf Item)
    (c : Card σ) : (renderPage sizes identity t c).1.bareTree? =
      ((renderPage sizes identity t c).2.map (·.bare)).toOption := by
  rw [bareTree?, tree?_renderPage]
  cases (renderPage sizes identity t c).2 with
  | error e => rfl
  | ok tree => rfl

/-- The same outline with pages that look alike settles to the same bare layout. -/
theorem bare_finish {c d : Card σ} (hsettings : c.settings = d.settings) (identity : CardIdentity)
    (sizes : ImageSizes) {arranged other : List OutlineNode × CarouselCache (Card σ)}
    (hnodes : arranged.1 = other.1) (hpages : arranged.2.LooksLike other.2) :
    (c.finish identity sizes arranged).2.map (·.bare) =
      (d.finish identity sizes other).2.map (·.bare) := by
  obtain ⟨children, cs⟩ := arranged
  obtain ⟨_, ds⟩ := other
  cases hnodes
  have hstrips : ∀ path,
      (strip? (⟨d.settings, identity, cs.endPass, none⟩ : Card σ) path).map StripState.bare =
        (strip? (⟨d.settings, identity, ds.endPass, none⟩ : Card σ) path).map StripState.bare := by
    intro path
    rw [bare_strip?_endPass, bare_strip?_endPass, hpages]
  unfold finish
  dsimp only
  rw [hsettings]
  generalize rootNode d.settings children = root
  generalize (c.live.filter fun _ => c.identity = identity).elim .empty (carriedImages · root) =
    images, (d.live.filter fun _ => d.identity = identity).elim .empty (carriedImages · root) =
    images'
  cases Board.run (Board.empty : Board σ) (Rules.ofCard sizes d.settings.displayScale root) with
  | error e => rfl
  | ok board =>
    let start : Measured σ := ⟨board, root.expectedHeights⟩
    have hsettle := bare_settle d.settings hstrips root images images' start
    dsimp only [bind, Except.bind]
    generalize settle d.settings
      (strip? (⟨d.settings, identity, cs.endPass, none⟩ : Card σ)) root images start = settled,
      settle d.settings
        (strip? (⟨d.settings, identity, ds.endPass, none⟩ : Card σ)) root images' start = settled'
      at hsettle ⊢
    cases settled with
    | error e => cases settled' with
      | error e' =>
        cases hsettle
        rfl
      | ok live' => cases hsettle
    | ok live => cases settled' with
      | error e' => cases hsettle
      | ok live' => exact congrArg Except.ok (Except.ok.inj hsettle)

variable {s : LayoutSettings} {sizes : ImageSizes}

mutual

/-- An item gets the same outline from caches that look alike, and leaves them looking alike. -/
theorem arrange_looksLike : ∀ (width : Binary64) (identity : CardIdentity) (item : Item) (p : Place)
    {cs ds : CarouselCache (Card σ)}, cs.AllPages (fun _ _ => HasSettings s) →
    ds.AllPages (fun _ _ => HasSettings s) → cs.LooksLike ds →
    let first := arrange { s with maxWidth := width } sizes identity item p cs
    let second := arrange { s with maxWidth := width } sizes identity item p ds
    first.1 = second.1 ∧ first.2.LooksLike second.2
  | width, identity, .box view direction items align, p, cs, ds, hcs, hds, h => by
    rw [arrange_box, arrange_box]
    obtain ⟨hnodes, hlooks⟩ := arrangeAll_looksLike width identity items
      (p.siblings { s with maxWidth := width } sizes view direction items) 0 (p.id + 1) hcs hds h
    dsimp only
    rw [hnodes]
    exact ⟨rfl, hlooks⟩
  | width, identity, .text isButton t, p, cs, ds, hcs, hds, h => by
    rw [arrange_text, arrange_text]
    exact ⟨rfl, h⟩
  | width, identity, .image isButton i, p, cs, ds, hcs, hds, h => by
    rw [arrange_image, arrange_image]
    exact ⟨rfl, h⟩
  | width, identity, .carousel view pages spacing, p, cs, ds, hcs, hds, h => by
    cases hhidden : p.hidden with
    | true =>
      rw [arrange_carousel_of_hidden cs hhidden, arrange_carousel_of_hidden ds hhidden]
      exact ⟨rfl, h⟩
    | false =>
      rw [arrange_carousel_of_shown cs hhidden, arrange_carousel_of_shown ds hhidden]
      dsimp only
      have hnew : ∀ w : Binary64, (new { s with maxWidth := w } : Card σ).HasSettings s :=
        hasSettings_new s
      let inner := pageWidth { s with maxWidth := width } (view.innerWidth p.available)
      have hclaimed : ∀ {cs : CarouselCache (Card σ)}, cs.AllPages (fun _ _ => HasSettings s) →
          ∀ c ∈ (cs.checkout ⟨identity, p.path⟩ pages.length fun _ =>
            new { s with maxWidth := inner }).1.pages, c.HasSettings s := by
        intro cs hcs c hc
        obtain ⟨i, hi⟩ := List.getElem?_of_mem hc
        exact hcs.claimed _ _ (fun _ => hnew _) i c hi
      obtain ⟨hlength, hrest⟩ := h.claimed ⟨identity, p.path⟩ pages.length
        fun _ => new { s with maxWidth := inner }
      have hpages := renderPages_looksLike pages ⟨identity, p.path⟩ inner 0
        (hclaimed hcs) (hclaimed hds) hlength hrest
      exact ⟨by rw [pagesExtent_congr hpages], h.checkout_put _ _ _ hpages⟩

theorem arrangeAll_looksLike : ∀ (width : Binary64) (identity : CardIdentity) (items : List Item)
    (siblings : Siblings) (index id : Nat) {cs ds : CarouselCache (Card σ)},
    cs.AllPages (fun _ _ => HasSettings s) → ds.AllPages (fun _ _ => HasSettings s) →
    cs.LooksLike ds →
    let first := arrangeAll { s with maxWidth := width } sizes identity siblings items index id cs
    let second := arrangeAll { s with maxWidth := width } sizes identity siblings items index id ds
    first.1 = second.1 ∧ first.2.LooksLike second.2
  | width, identity, [], siblings, index, id, cs, ds, hcs, hds, h => by
    rw [arrangeAll_nil, arrangeAll_nil]
    exact ⟨rfl, h⟩
  | width, identity, item :: rest, siblings, index, id, cs, ds, hcs, hds, h => by
    rw [arrangeAll_cons, arrangeAll_cons]
    have hkept : ∀ {cs : CarouselCache (Card σ)}, cs.AllPages (fun _ _ => HasSettings s) →
        (arrange { s with maxWidth := width } sizes identity item (siblings.place id index item)
          cs).2.AllPages fun _ _ => HasSettings s := by
      intro cs hcs
      exact (survivesRendering_hasSettings s).arrange [] identity item _ cs
        (fun width _ _ => hasSettings_new s width) hcs
    obtain ⟨hnode, hlooks⟩ := arrange_looksLike width identity item
      (siblings.place id index item) hcs hds h
    obtain ⟨hnodes, hlooks⟩ := arrangeAll_looksLike width identity rest siblings (index + 1)
      (id + item.count) (hkept hcs) (hkept hds) hlooks
    dsimp only
    rw [hnode, hnodes]
    exact ⟨rfl, hlooks⟩

/-- Templates rendered on as many cards of the same settings look alike, and so do all pages if
those without a template did. -/
theorem renderPages_looksLike : ∀ (pages : List (TemplateOf Item)) (key : CarouselKey)
    (width : Binary64) (index : Nat) {cards others : List (Card σ)},
    (∀ c ∈ cards, c.HasSettings s) → (∀ c ∈ others, c.HasSettings s) →
    cards.length = others.length →
    (cards.drop pages.length).map bareTree? = (others.drop pages.length).map bareTree? →
    (renderPages sizes key width pages index cards).map bareTree? =
      (renderPages sizes key width pages index others).map bareTree?
  | [], key, width, index, cards, others, hcards, hothers, hlength, hrest => by
    rw [renderPages, renderPages]
    exact hrest
  | page :: rest, key, width, index, [], [], hcards, hothers, hlength, hrest => rfl
  | page :: rest, key, width, index, card :: cards, other :: others, hcards, hothers, hlength,
      hrest => by
    obtain ⟨hcard, hcards⟩ := List.forall_mem_cons.mp hcards
    obtain ⟨hother, hothers⟩ := List.forall_mem_cons.mp hothers
    have hlooks := renderPage_looksLike page (key.page index) (hcard.withMaxWidth width)
      (hother.withMaxWidth width)
      ((hcard.settings_withMaxWidth width).trans (hother.settings_withMaxWidth width).symm)
    rw [renderPages, renderPages, List.map_cons, List.map_cons, bareTree?_renderPage, hlooks,
      bareTree?_renderPage, renderPages_looksLike rest key width (index + 1) hcards hothers
        (Nat.succ.inj hlength) hrest]

theorem renderPage_looksLike : ∀ (page : TemplateOf Item) (identity : CardIdentity) {c d : Card σ},
    c.HasSettings s → d.HasSettings s → c.settings = d.settings →
    (renderPage sizes identity page c).2.map (·.bare) =
      (renderPage sizes identity page d).2.map (·.bare)
  | ⟨version, none⟩, identity, c, d, hc, hd, hsettings => by rw [renderPage, renderPage]
  | ⟨version, some items⟩, identity, c, d, hc, hd, hsettings => by
    rw [renderPage, renderPage]
    split
    · obtain ⟨width, hwidth⟩ := hc.exists_width
      obtain ⟨hnodes, hlooks⟩ := arrangeAll_looksLike width identity items
        (bodySiblings { s with maxWidth := width } sizes items) 0 1 hc.pages.beginPass
        hd.pages.beginPass (CarouselCache.looksLike_beginPass c.carousels d.carousels)
      rw [← hwidth] at hnodes hlooks
      rw [← hsettings]
      exact bare_finish hsettings identity sizes hnodes hlooks
    · rfl

end

/-- Whatever a card went through, a template that it renders next gets the bare layout that it gets
on a new card of the same settings, or fails as it does there; and this is what the card then
shows. -/
theorem render_forgets_history {c : Card σ} (hc : c.Reachable) (sizes : ImageSizes)
    (identity : CardIdentity) (t : Template) :
    (c.render sizes identity t).2.map (·.bare) =
      ((new c.settings : Card σ).render sizes identity t).2.map (·.bare) ∧
    (c.render sizes identity t).1.tree? = (c.render sizes identity t).2.toOption := by
  obtain ⟨s, hs⟩ := hc.hasSettings
  obtain ⟨width, hwidth⟩ := hs.exists_width
  have hnew : (new c.settings : Card σ).HasSettings s := hwidth ▸ hasSettings_new s width
  exact ⟨renderPage_looksLike t identity hs hnew rfl, tree?_renderPage sizes identity t c⟩

/-- A card that showed a carousel, was made narrower and then showed another message gets the layout
of a new card when the first message comes back. -/
theorem render_forgets_history_of_rerendered :
    let page : Template := ⟨1, some [.image false ⟨View.plain, "a", .aspectFit, none, none⟩]⟩
    let t : Template := ⟨1, some [.carousel View.plain [page, page] 8]⟩
    let first : Card (Linear.Tableau .exact) := ((new {}).render .empty ⟨"m", 1⟩ t).1
    let c := ((first.withMaxWidth 200).render .empty ⟨"m", 2⟩ page).1
    ∃ tree other, (c.render .empty ⟨"m", 1⟩ t).2 = .ok tree ∧
      ((new c.settings : Card (Linear.Tableau .exact)).render .empty ⟨"m", 1⟩ t).2 = .ok other ∧
      tree.bare = other.bare ∧ (c.render .empty ⟨"m", 1⟩ t).1.tree? = some tree := by
  intro page t first c
  have hc : c.Reachable := .render (.withMaxWidth (.render (.new {}) _ _ _) 200) _ _ _
  obtain ⟨hbare, hshown⟩ := render_forgets_history hc .empty ⟨"m", 1⟩ t
  obtain ⟨tree, htree⟩ := exists_render_ok c .empty ⟨"m", 1⟩ (t := t) (by decide)
  obtain ⟨other, hother⟩ := exists_render_ok (new c.settings : Card (Linear.Tableau .exact)) .empty
    ⟨"m", 1⟩ (t := t) (by decide)
  rw [htree, hother] at hbare
  exact ⟨tree, other, htree, hother, Except.ok.inj hbare, by rw [hshown, htree]; rfl⟩

end Card
end MessageCard
