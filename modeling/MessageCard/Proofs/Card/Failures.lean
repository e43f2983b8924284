import MessageCard.Preview
import MessageCard.Proofs.Card.Resizing

/-!
# What can fail

Constraints are replaced all the time: texts are measured again, images get the sizes of their
bitmaps, carousels the height of their pages, and a row that is too long lets go of its end. Each
time constraints are removed by handles that were kept for an owner. Such a handle is live whenever
it is used, on the board of a card and on those of all its pages, so the system of constraints never
misses one.

What remains are the faults of templates. They are all that rendering reports, a bitmap is refused
only where it has no place, and the body that stands in for a template always has a drawing.
-/
namespace MessageCard
namespace Board

variable {σ : Type} [RelationSolver σ] {b : Board σ}

/-! ## Removing by handles -/

/-- While an instruction is followed, a handle is removed from the system that there is by then. -/
inductive Removes (b : Board σ) : Instruction → Handle → ConstraintSystem σ → Prop
  | replace {o : Owner} {cs : List Constraint} {before after : List Handle} {h : Handle}
      {s : ConstraintSystem σ} (hhandles : b.handles o = before ++ h :: after)
      (hs : before.foldlM ConstraintSystem.remove b.system = .ok s) :
      Removes b (.replace o cs) h s

/-- A board becomes another one by instructions and by solving. -/
inductive Leads (b : Board σ) : Board σ → Prop
  | refl : Leads b b
  | follow {t u : Board σ} {i : Instruction} (h : Leads b t) (hu : t.follow i = .ok u) : Leads b u
  | solve {t : Board σ} (h : Leads b t) : Leads b t.solve.2

/-- Whatever is done with a board, the handles removed are live, and no instruction fails. -/
def NeverMisses (b : Board σ) : Prop :=
  ∀ t, b.Leads t → ∀ i, (∀ h s, t.Removes i h s → h ∈ s.present.map (·.1)) ∧
    ∃ u, t.follow i = .ok u

/-- A handle kept for an owner is live until its turn comes, as no handle is kept twice. -/
theorem IsSound.live_of_removes (hb : b.IsSound) {i : Instruction} {h : Handle}
    {s : ConstraintSystem σ} (hr : b.Removes i h s) : h ∈ s.present.map (·.1) := by
  cases hr with
  | @replace o cs before after h s hhandles hs =>
    have hlive := hb.handles_live o
    have hnodup := hb.handles_nodup o
    rw [hhandles] at hlive hnodup
    have hbefore : ∀ x ∈ before, x ∈ b.system.present.map (·.1) :=
      fun x hx => hlive x (List.mem_append_left _ hx)
    obtain ⟨t, ht, -, hpresent, -⟩ := ConstraintSystem.exists_removeAll hb.system hbefore
      (List.nodup_append.mp hnodup).1
    cases hs.symm.trans ht
    have hne : h ∉ before :=
      fun hmem => (List.nodup_append.mp hnodup).2.2 h hmem h List.mem_cons_self rfl
    obtain ⟨p, hp, rfl⟩ := List.mem_map.mp (hlive h (List.mem_append_right _ List.mem_cons_self))
    rw [hpresent]
    exact List.mem_map.mpr ⟨p, List.mem_filter.mpr ⟨hp, by simpa using hne⟩, rfl⟩

theorem IsSound.of_leads {t : Board σ} (hb : b.IsSound) (h : b.Leads t) : t.IsSound := by
  induction h with
  | refl => exact hb
  | follow _ hu ih => exact (ih.of_follow hu).1
  | solve _ ih => exact ih.solve

theorem IsSound.neverMisses (hb : b.IsSound) : b.NeverMisses := by
  intro t ht i
  have htsound := hb.of_leads ht
  obtain ⟨u, hu, -⟩ := htsound.exists_follow i
  exact ⟨fun h s hr => htsound.live_of_removes hr, u, hu⟩

end Board

namespace Card

variable {σ : Type}

/-! ## Bitmaps -/

/-- The URL in the image slot at the end of a way. -/
def urlAt? (c : Card σ) (route : ImageRoute) : Option String := do
  let holder ← c.cardAt? route.hops
  let n ← holder.shownNode? route.node
  match n.slot with
  | .image i => some i.url
  | _ => none

theorem urlAt?_eq_some {c holder : Card σ} {route : ImageRoute} {n : OutlineNode} {i : ImageSlot}
    (hholder : c.cardAt? route.hops = some holder) (hn : holder.shownNode? route.node = some n)
    (hslot : n.slot = .image i) : c.urlAt? route = some i.url := by
  simp [urlAt?, hholder, hn, hslot]

theorem urlAt?_cons {c inner : Card σ} {carousel page node : Nat} {hops : List (Nat × Nat)}
    {state : CarouselState (Card σ)} (hstate : c.shownCarousel? carousel = some state)
    (hinner : state.pages[page]? = some inner) :
    c.urlAt? ⟨(carousel, page) :: hops, node⟩ = inner.urlAt? ⟨hops, node⟩ := by
  rw [urlAt?, cardAt?_cons hstate hinner, urlAt?]

theorem exists_of_urlAt? {c : Card σ} {route : ImageRoute} {url : String}
    (h : c.urlAt? route = some url) : ∃ holder n i, c.cardAt? route.hops = some holder ∧
      holder.shownNode? route.node = some n ∧ n.slot = .image i ∧ i.url = url := by
  obtain ⟨holder, hholder, h⟩ := Option.bind_eq_some_iff.mp h
  obtain ⟨n, hn, h⟩ := Option.bind_eq_some_iff.mp h
  cases hslot : n.slot with
  | image i =>
    simp only [hslot, Option.some.injEq] at h
    exact ⟨holder, n, i, hholder, hn, hslot, h⟩
  | _ => simp [hslot] at h

variable [RelationSolver σ]

/-- A bitmap is accepted where a slot at the end of a way shows its URL. -/
theorem exists_acceptAt_of_slot {c holder : Card σ} (hc : c.IsKept) {hops : List (Nat × Nat)}
    (hholder : c.cardAt? hops = some holder) {node : Nat} {n : OutlineNode}
    (hn : holder.shownNode? node = some n) {i : ImageSlot} (hslot : n.slot = .image i)
    (sizes : ImageSizes) (bitmap : Bitmap) :
    ∃ a, acceptAt sizes node i.url bitmap hops c = some a := by
  induction hops generalizing c with
  | nil =>
    cases hholder
    obtain ⟨l, hl, hmem, rfl, hshown⟩ := exists_of_shownNode? hn
    exact exists_acceptHere hc hl hmem hshown hslot sizes bitmap
  | cons hop hops ih =>
    obtain ⟨carousel, page⟩ := hop
    obtain ⟨state, inner, hstate, hinner, hrest⟩ := exists_of_cardAt?_cons hholder
    obtain ⟨k, spacing, extent, hk, hkslot, hkept⟩ := exists_of_shownCarousel? hstate
    obtain ⟨l, hl, hmem, rfl, hshown⟩ := exists_of_shownNode? hk
    obtain ⟨a, ha⟩ := ih (hc.page hkept (List.mem_of_getElem? hinner)) hrest
    obtain ⟨b, hb⟩ := exists_acceptPage hc hl hmem hshown hkslot page state a
    refine ⟨b, ?_⟩
    rw [acceptAt, hstate]
    simp only [Option.bind_eq_bind, Option.bind_some, hinner, ha]
    exact hb

/-- A bitmap is refused only if it was requested for another message, or if its slot is not shown or
shows another URL. -/
theorem isSome_accept_iff {c : Card σ} (hc : c.IsKept) (sizes : ImageSizes)
    (identity : CardIdentity) (route : ImageRoute) (url : String) (bitmap : Bitmap) :
    (c.accept sizes identity route url bitmap).isSome ↔
      identity = c.identity ∧ c.urlAt? route = some url := by
  constructor
  · intro h
    obtain ⟨a, ha⟩ := Option.isSome_iff_exists.mp h
    have hidentity : identity = c.identity := by
      by_contra hne
      rw [accept, if_neg hne] at ha
      cases ha
    obtain ⟨holder, n, i, -, hholder, hn, hslot, hurl, -⟩ := (takes_of_accept hc ha).exists_slot hc
    exact ⟨hidentity, hurl ▸ urlAt?_eq_some hholder hn hslot⟩
  · rintro ⟨rfl, hurl⟩
    obtain ⟨holder, n, i, hholder, hn, hslot, rfl⟩ := exists_of_urlAt? hurl
    obtain ⟨a, ha⟩ := exists_acceptAt_of_slot hc hholder hn hslot sizes bitmap
    rw [accept, if_pos rfl, ha, Option.isSome_some]

/-! ## Whole cards -/

/-- A body can always be laid out. -/
theorem exists_renderBody_ok (c : Card σ) (sizes : ImageSizes) (identity : CardIdentity)
    (items : List Item) : ∃ tree, (c.renderBody sizes identity items).2 = .ok tree := by
  obtain ⟨l, hl, -⟩ := exists_renderBody c sizes identity items
  exact ⟨l.tree, by rw [hl]⟩

/-- Every text has a drawing, of its template or of the body that stands in for it. -/
theorem exists_renderOrStandIn (s : PreviewSettings) (text : String) :
    ∃ drawing, Preview.renderOrStandIn σ s text = .ok drawing := by
  unfold Preview.renderOrStandIn
  cases Preview.layOut σ s text with
  | ok tree => exact ⟨_, rfl⟩
  | error e =>
    obtain ⟨tree, htree⟩ := exists_renderBody_ok (new s.layout : Card σ) .empty ⟨"", 0⟩
      (StandIn.themed s.theme s.appearance)
    exact ⟨Preview.draw s tree, by simp only [htree]⟩

/-- The system of constraints never reports a handle that it does not know. Boards start empty and
never miss a handle, on a card that came about and on all its pages each handle is live and kept for
one owner, and none of what a card does fails for another reason than its input: rendering fails
with the fault of the template, bodies are laid out, bitmaps are accepted where they have a place,
and every text has a drawing. -/
theorem never_misses_a_handle {c : Card σ} (hc : c.Reachable) :
    (Board.empty : Board σ).NeverMisses ∧
    (∀ way d l, c.cardAt? way = some d → d.live = some l →
      (∀ p ∈ l.measured.board.owned, p.2 ∈ l.measured.board.system.present.map (·.1)) ∧
      (l.measured.board.owned.map (·.2)).Nodup ∧ l.measured.board.NeverMisses) ∧
    (∀ (d : Card σ) sizes identity t e,
      (d.render sizes identity t).2 = .error e ↔ fault? t = some e) ∧
    (∀ (d : Card σ) sizes identity items,
      ∃ tree, (d.renderBody sizes identity items).2 = .ok tree) ∧
    (∀ sizes identity route url bitmap, (c.accept sizes identity route url bitmap).isSome ↔
      identity = c.identity ∧ c.urlAt? route = some url) ∧
    ∀ s text, ∃ drawing, Preview.renderOrStandIn σ s text = .ok drawing := by
  refine ⟨Board.isSound_empty.neverMisses, ?_, ?_, exists_renderBody_ok, ?_, exists_renderOrStandIn⟩
  · intro way d l hd hl
    have hsound := ((hc.isKept.of_cardAt? hd).isLaidOut hl).sound
    exact ⟨hsound.live, hsound.once, hsound.neverMisses⟩
  · intro d sizes identity t e
    exact renderPage_eq_error_iff sizes identity t d e
  · exact isSome_accept_iff hc.isKept

/-- The way to a page of an album leads to its image. -/
theorem urlAt?_render_album (s : LayoutSettings) (sizes : ImageSizes) (identity : CardIdentity)
    (i j k : ImageItem) (page : Nat) :
    ((new s : Card σ).render sizes identity (albumOf i j k)).1.urlAt? ⟨[(2, page)], 1⟩ =
      [j.url, k.url][page]? := by
  obtain ⟨state, width, hstate, hpages⟩ :=
    exists_shownCarousel?_render_album (σ := σ) s sizes identity i j k
  have hinner (key : CardIdentity) (x : ImageItem) :
      ((new { s with maxWidth := width } : Card σ).render sizes key
        ⟨1, some [.image false x]⟩).1.urlAt? (.here 1) = some (x.slot false).url :=
    urlAt?_eq_some rfl (shownNode?_render_image _ sizes key x) rfl
  match page with
  | 0 =>
    rw [urlAt?_cons hstate (by rw [hpages]; rfl)]
    exact hinner _ j
  | 1 =>
    rw [urlAt?_cons hstate (by rw [hpages]; rfl)]
    exact hinner _ k
  | page + 2 => simp [urlAt?, cardAt?, hstate, hpages]

/-- On a card with images on the pages of a carousel every replacement finds its handles, on the
card and on its pages. The second page takes any bitmap for its image, a third one none, and an
unsupported template that comes next fails with its version. -/
theorem never_misses_a_handle_of_album :
    let c : Card (Linear.Tableau .exact) := ((new {}).render .empty ⟨"m", 1⟩
      (albumOf (plainImage "a") (plainImage "b") (plainImage "c"))).1
    (∃ l, c.live = some l ∧ l.measured.board.NeverMisses) ∧
      (∃ d l, c.cardAt? [(2, 1)] = some d ∧ d.live = some l ∧ l.measured.board.NeverMisses ∧
        (l.measured.board.owned.map (·.2)).Nodup) ∧
      (∀ bitmap, (c.accept .empty ⟨"m", 1⟩ ⟨[(2, 1)], 1⟩ "c" bitmap).isSome) ∧
      (∀ bitmap, (c.accept .empty ⟨"m", 1⟩ ⟨[(2, 2)], 1⟩ "c" bitmap).isSome = false) ∧
      (c.render .empty ⟨"m", 2⟩ ⟨7, none⟩).2 = .error (.unsupportedVersion 7) := by
  intro c
  have hc : c.Reachable := .render (.new {}) _ _ _
  obtain ⟨-, hboards, hrender, -, haccept, -⟩ := never_misses_a_handle hc
  have hurl (page : Nat) : c.urlAt? ⟨[(2, page)], 1⟩ = ["b", "c"][page]? :=
    urlAt?_render_album {} .empty ⟨"m", 1⟩ (plainImage "a") (plainImage "b") (plainImage "c") page
  obtain ⟨l, extent, width, hl, hidentity, -⟩ := exists_render_album (σ := Linear.Tableau .exact)
    {} .empty ⟨"m", 1⟩ (plainImage "a") (plainImage "b") (plainImage "c")
  obtain ⟨d, n, i, hd, hn, -⟩ := exists_of_urlAt? (hurl 1)
  obtain ⟨t, ht, -⟩ := exists_of_shownNode? hn
  obtain ⟨-, honce, hmisses⟩ := hboards _ d t hd ht
  refine ⟨⟨l, hl, (hboards [] c l rfl hl).2.2⟩, ⟨d, t, hd, ht, hmisses, honce⟩, fun bitmap => ?_,
    fun bitmap => ?_, ?_⟩
  · exact (haccept _ _ _ _ _).mpr ⟨hidentity.symm, hurl 1⟩
  · rw [Bool.eq_false_iff]
    intro hsome
    cases (hurl 2).symm.trans ((haccept _ _ _ _ _).mp hsome).2
  · exact (hrender c _ _ _ _).mpr (by decide)

end Card
end MessageCard
