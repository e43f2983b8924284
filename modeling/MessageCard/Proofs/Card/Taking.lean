import MessageCard.Proofs.Card.Kept

/-!
# Cards that take bitmaps

What a card does with a bitmap that it takes is described once, level by level: at the end of the
way a slot gets new constraints, and on each card around it the carousel on the way gets the height
that its pages have then. On a card in order nothing of this can fail, and the card stays in order.
-/
namespace MessageCard
namespace Card

variable {σ : Type}

/-! ## Nodes by number -/

theorem exists_of_shownNode? {c : Card σ} {id : Nat} {n : OutlineNode}
    (h : c.shownNode? id = some n) :
    ∃ l, c.live = some l ∧ n ∈ l.root.nodes ∧ n.id = id ∧ n.hidden = false := by
  obtain ⟨hnode, hshown⟩ := Option.filter_eq_some_iff.mp h
  obtain ⟨l, hl, hfind⟩ := Option.bind_eq_some_iff.mp hnode
  have hid : n.id = id := by simpa using List.find?_some hfind
  exact ⟨l, hl, List.mem_of_find?_eq_some hfind, hid, by simpa using hshown⟩

theorem exists_of_shownCarousel? {c : Card σ} {carousel : Nat} {state : CarouselState (Card σ)}
    (h : c.shownCarousel? carousel = some state) :
    ∃ n spacing extent, c.shownNode? carousel = some n ∧ n.slot = .carousel spacing extent ∧
      c.carousel? n.path = some state := by
  obtain ⟨n, hn, h⟩ := Option.bind_eq_some_iff.mp h
  cases hslot : n.slot with
  | carousel spacing extent =>
    simp only [hslot] at h
    exact ⟨n, spacing, extent, hn, hslot, h⟩
  | _ => simp [hslot] at h

/-! ## Cards along a way -/

/-- The card at the end of a way through carousels and their pages. -/
def cardAt? : List (Nat × Nat) → Card σ → Option (Card σ)
  | [], c => some c
  | (carousel, page) :: way, c => do
    let state ← c.shownCarousel? carousel
    let inner ← state.pages[page]?
    cardAt? way inner

theorem cardAt?_cons {c : Card σ} {carousel page : Nat} {way : List (Nat × Nat)}
    {state : CarouselState (Card σ)} {inner : Card σ} (hstate : c.shownCarousel? carousel = some state)
    (hinner : state.pages[page]? = some inner) :
    c.cardAt? ((carousel, page) :: way) = inner.cardAt? way := by
  simp [cardAt?, hstate, hinner]

/-- The way to a card begins with a carousel and goes on from one of its pages. -/
theorem exists_of_cardAt?_cons {c holder : Card σ} {carousel page : Nat} {way : List (Nat × Nat)}
    (h : c.cardAt? ((carousel, page) :: way) = some holder) :
    ∃ state inner, c.shownCarousel? carousel = some state ∧ state.pages[page]? = some inner ∧
      inner.cardAt? way = some holder := by
  obtain ⟨state, hstate, h⟩ := Option.bind_eq_some_iff.mp h
  obtain ⟨inner, hinner, h⟩ := Option.bind_eq_some_iff.mp h
  exact ⟨state, inner, hstate, hinner, h⟩

/-! ## What a card keeps and what suits it -/

/-- The card with another card on a page of a carousel. -/
def withPage (c : Card σ) (path : String) (state : CarouselState (Card σ)) (page : Nat)
    (card : Card σ) : Card σ :=
  { c with carousels :=
      c.carousels.put ⟨c.identity, path⟩ { state with pages := state.pages.set page card } }

theorem carousel?_withPage {c : Card σ} {path path' : String} {state : CarouselState (Card σ)}
    {page : Nat} {card : Card σ} :
    (c.withPage path state page card).carousel? path' =
      if path = path' then some { state with pages := state.pages.set page card }
      else c.carousel? path' := by
  rw [carousel?, withPage, CarouselCache.get?_put]
  simp [carousel?]

theorem KeepsPagesOf.withPage {c card : Card σ} {n : OutlineNode} {path : String}
    {state : CarouselState (Card σ)} {page : Nat} (h : c.KeepsPagesOf n) :
    (c.withPage path state page card).KeepsPagesOf n := by
  intro hshown spacing extent hslot
  rw [carousel?_withPage]
  split
  · exact ⟨_, rfl⟩
  · exact h hshown spacing extent hslot

theorem Suits.withLive {c : Card σ} {root : OutlineNode} {sheet : Sheet}
    (h : c.Suits root sheet) (live : Option (LiveLayout σ)) :
    ({ c with live } : Card σ).Suits root sheet :=
  ⟨h.images, h.carousels⟩

/-- A slot with new constraints still has such as sizes of bitmaps ask for. -/
theorem Suits.edit_image {c : Card σ} {root n : OutlineNode} {sheet : Sheet} {i : ImageSlot}
    (h : c.Suits root sheet) (hids : (root.nodes.map (·.id)).Nodup) (hn : n ∈ root.nodes)
    (hslot : n.slot = .image i) (sizes : ImageSizes) :
    c.Suits root (sheet.edit (.replace (.image n.id)
      (Rules.image n.id n.view i sizes c.settings.displayScale))) := by
  constructor
  · intro k hk hshown j hj
    by_cases hid : k.id = n.id
    · have hkn : k = n := List.inj_on_of_nodup_map hids hk hn hid
      subst hkn
      cases hslot.symm.trans hj
      exact ⟨sizes, Sheet.ofOwner_replace_self _ _ _⟩
    · obtain ⟨earlier, hearlier⟩ := h.images k hk hshown j hj
      refine ⟨earlier, ?_⟩
      rw [Sheet.ofOwner_replace_of_ne _ _ (by simpa using hid), hearlier]
  · intro k hk hshown hflexible spacing extent hk' state hstate
    rw [Sheet.ofOwner_replace_of_ne _ _ (by simp)]
    exact h.carousels k hk hshown hflexible spacing extent hk' state hstate

variable [RelationSolver σ]

/-- The node with a number, when no two nodes have the same. -/
theorem IsLaidOut.node?_eq {c : Card σ} {l : LiveLayout σ} (h : c.IsLaidOut l)
    (hl : c.live = some l) {n : OutlineNode} (hn : n ∈ l.root.nodes) : c.node? n.id = some n := by
  rw [node?, hl, Option.bind_some]
  cases hfind : l.root.nodes.find? (·.id = n.id) with
  | none =>
    have hne := List.find?_eq_none.mp hfind n hn
    simp at hne
  | some k =>
    have hk : k.id = n.id := by simpa using List.find?_some hfind
    rw [h.eq_of_id (List.mem_of_find?_eq_some hfind) hn hk]

theorem IsLaidOut.shownNode?_eq {c : Card σ} {l : LiveLayout σ} (h : c.IsLaidOut l)
    (hl : c.live = some l) {n : OutlineNode} (hn : n ∈ l.root.nodes) (hshown : n.hidden = false) :
    c.shownNode? n.id = some n := by
  rw [shownNode?, h.node?_eq hl hn]
  simp [hshown]

/-- The card at the end of a way is in order with the card where the way begins. -/
theorem IsKept.of_cardAt? {c d : Card σ} (hc : c.IsKept) {way : List (Nat × Nat)}
    (h : c.cardAt? way = some d) : d.IsKept := by
  induction way generalizing c with
  | nil =>
    cases h
    exact hc
  | cons hop way ih =>
    obtain ⟨carousel, page⟩ := hop
    obtain ⟨state, inner, hstate, hinner, hrest⟩ := exists_of_cardAt?_cons h
    obtain ⟨k, spacing, extent, -, -, hkept⟩ := exists_of_shownCarousel? hstate
    exact ih (hc.page hkept (List.mem_of_getElem? hinner)) hrest

/-! ## Taking a bitmap -/

/-- The board of a card after a page of one of its carousels was resized. -/
def pageBoard (l : LiveLayout σ) (n : OutlineNode) (height : Binary64) :
    Except SystemError (Board σ) :=
  if n.view.height.isFixed then .ok l.measured.board
  else l.measured.board.follow (.replace (.carousel n.id) [Rules.carouselHeight n.id height])

/-- What a card does with a bitmap that it takes: one of its own slots gets new constraints, or one
of its pages takes it and the page's carousel gets the height that its pages have then; and the
layout is settled again. -/
inductive Takes (sizes : ImageSizes) (node : Nat) (url : String) (bitmap : Bitmap) :
    List (Nat × Nat) → Card σ → Accepted σ → Prop
  | here {c : Card σ} {l t : LiveLayout σ} {n : OutlineNode} {i : ImageSlot} {board : Board σ}
      (hl : c.live = some l) (hn : n ∈ l.root.nodes) (hid : n.id = node)
      (hshown : n.hidden = false) (hslot : n.slot = .image i) (hurl : i.url = url)
      (hboard : l.measured.board.follow (.replace (.image node) (Rules.image node n.view i
        (sizes.insert url bitmap.size) c.settings.displayScale)) = .ok board)
      (ht : t.IsSettled c.settings.measurer c.strip? l.root (l.images.insert node
        ⟨n.view.fit c.settings.displayScale bitmap, bitmap.size⟩) { l.measured with board }) :
      Takes sizes node url bitmap [] c ⟨{ c with live := some t }, sizes.insert url bitmap.size,
        if isResizedBy n.view i then some node else none⟩
  | page {c inner : Card σ} {l t : LiveLayout σ} {n : OutlineNode} {spacing : Binary64}
      {extent : Extent} {state : CarouselState (Card σ)} {carousel page : Nat}
      {hops : List (Nat × Nat)} {a : Accepted σ} {board : Board σ}
      (hl : c.live = some l) (hn : n ∈ l.root.nodes) (hid : n.id = carousel)
      (hshown : n.hidden = false) (hslot : n.slot = .carousel spacing extent)
      (hstate : c.carousel? n.path = some state) (hinner : state.pages[page]? = some inner)
      (ha : Takes sizes node url bitmap hops inner a)
      (hboard : pageBoard l n (pagesExtent spacing (state.pages.set page a.card)).height =
        .ok board)
      (ht : t.IsSettled c.settings.measurer (c.withPage n.path state page a.card).strip? l.root
        l.images { l.measured with board }) :
      Takes sizes node url bitmap ((carousel, page) :: hops) c
        ⟨{ c.withPage n.path state page a.card with live := some t }, a.sizes,
          a.resized.map fun _ => carousel⟩

section Accept

variable {node : Nat} {url : String} {bitmap : Bitmap} {sizes : ImageSizes} {c : Card σ}

theorem eq_ok_of_toOption {ε α : Type} {e : Except ε α} {x : α} (h : e.toOption = some x) :
    e = .ok x := by
  cases e with
  | error e => cases h
  | ok y =>
    cases h
    rfl

/-- What taking a bitmap in a slot comes to. -/
theorem acceptHere_eq {l : LiveLayout σ} {n : OutlineNode} {i : ImageSlot} (hl : c.live = some l)
    (hn : c.shownNode? node = some n) (hslot : n.slot = .image i) (hurl : i.url = url) :
    c.acceptHere sizes node url bitmap = (l.measured.board.follow (.replace (.image node)
        (Rules.image node n.view i (sizes.insert url bitmap.size)
          c.settings.displayScale))).toOption.bind fun board =>
      (c.resettle l board (l.images.insert node
        ⟨n.view.fit c.settings.displayScale bitmap, bitmap.size⟩)).toOption.bind fun card =>
      some ⟨card, sizes.insert url bitmap.size,
        if isResizedBy n.view i then some node else none⟩ := by
  simp only [acceptHere, Option.bind_eq_bind, hl, hn, Option.bind_some, hslot, hurl, if_true]
  rfl

/-- What taking a bitmap on a page comes to for the card around it. -/
theorem acceptPage_eq {l : LiveLayout σ} {n : OutlineNode} {spacing : Binary64} {extent : Extent}
    (hl : c.live = some l) {carousel : Nat} (hn : c.shownNode? carousel = some n)
    (hid : n.id = carousel) (hslot : n.slot = .carousel spacing extent) (page : Nat)
    (state : CarouselState (Card σ)) (a : Accepted σ) :
    c.acceptPage carousel page state a =
      (pageBoard l n (pagesExtent spacing (state.pages.set page a.card)).height).toOption.bind
        fun board => ((c.withPage n.path state page a.card).resettle l board
          l.images).toOption.bind fun card =>
        some ⟨card, a.sizes, a.resized.map fun _ => carousel⟩ := by
  subst hid
  simp only [acceptPage, Option.bind_eq_bind, hn, Option.bind_some, hslot, pageBoard, withPage, hl]
  split <;> rfl

theorem pageBoard_isSound {l : LiveLayout σ} (h : l.measured.board.IsSound) (n : OutlineNode)
    (height : Binary64) : ∃ board, pageBoard l n height = .ok board ∧ board.IsSound := by
  unfold pageBoard
  split
  · exact ⟨_, rfl, h⟩
  · obtain ⟨board, hboard, hsound, -⟩ :=
      h.exists_follow (.replace (.carousel n.id) [Rules.carouselHeight n.id height])
    exact ⟨board, hboard, hsound⟩

theorem takes_of_acceptHere {a : Accepted σ} (hc : c.IsKept)
    (h : c.acceptHere sizes node url bitmap = some a) : Takes sizes node url bitmap [] c a := by
  obtain ⟨l, hl, hrest⟩ := Option.bind_eq_some_iff.mp h
  obtain ⟨n, hn, hrest⟩ := Option.bind_eq_some_iff.mp hrest
  obtain ⟨l', hl', hmem, hid, hshown⟩ := exists_of_shownNode? hn
  cases hl.symm.trans hl'
  cases hslot : n.slot with
  | image i =>
    simp only [hslot] at hrest
    split at hrest
    case isFalse => cases hrest
    case isTrue hurl =>
      rw [acceptHere_eq hl hn hslot hurl] at h
      obtain ⟨board, hboard, h⟩ := Option.bind_eq_some_iff.mp h
      obtain ⟨card, hcard, h⟩ := Option.bind_eq_some_iff.mp h
      cases h
      have hboard := eq_ok_of_toOption hboard
      obtain ⟨t, ht, hsettled⟩ := c.exists_resettle l
        ((hc.isLaidOut hl).sound.of_follow hboard).1 (l.images.insert node
          ⟨n.view.fit c.settings.displayScale bitmap, bitmap.size⟩)
      cases (eq_ok_of_toOption hcard).symm.trans ht
      exact .here hl hmem hid hshown hslot hurl hboard hsettled
  | _ => simp [hslot] at hrest

theorem takes_of_acceptPage {a b : Accepted σ} {inner : Card σ} {carousel page : Nat}
    {hops : List (Nat × Nat)} {state : CarouselState (Card σ)} (hc : c.IsKept)
    (hstate : c.shownCarousel? carousel = some state) (hinner : state.pages[page]? = some inner)
    (ha : Takes sizes node url bitmap hops inner a)
    (h : c.acceptPage carousel page state a = some b) :
    Takes sizes node url bitmap ((carousel, page) :: hops) c b := by
  obtain ⟨n, spacing, extent, hn, hslot, hstate⟩ := exists_of_shownCarousel? hstate
  obtain ⟨l, hl, hmem, hid, hshown⟩ := exists_of_shownNode? hn
  rw [acceptPage_eq hl hn hid hslot] at h
  obtain ⟨board, hboard, h⟩ := Option.bind_eq_some_iff.mp h
  obtain ⟨card, hcard, h⟩ := Option.bind_eq_some_iff.mp h
  cases h
  have hboard := eq_ok_of_toOption hboard
  obtain ⟨board', hboard', hsound⟩ := pageBoard_isSound (hc.isLaidOut hl).sound n
    (pagesExtent spacing (state.pages.set page a.card)).height
  cases hboard.symm.trans hboard'
  obtain ⟨t, ht, hsettled⟩ := (c.withPage n.path state page a.card).exists_resettle l hsound
    l.images
  cases (eq_ok_of_toOption hcard).symm.trans ht
  exact .page hl hmem hid hshown hslot hstate hinner ha hboard hsettled

/-- A bitmap that is accepted is taken. -/
theorem takes_of_acceptAt {hops : List (Nat × Nat)} {a : Accepted σ} (hc : c.IsKept)
    (h : acceptAt sizes node url bitmap hops c = some a) : Takes sizes node url bitmap hops c a := by
  induction hops generalizing c a with
  | nil => exact takes_of_acceptHere hc h
  | cons hop hops ih =>
    obtain ⟨carousel, page⟩ := hop
    obtain ⟨state, hstate, h⟩ := Option.bind_eq_some_iff.mp h
    obtain ⟨inner, hinner, h⟩ := Option.bind_eq_some_iff.mp h
    obtain ⟨b, hb, h⟩ := Option.bind_eq_some_iff.mp h
    obtain ⟨n, spacing, extent, hn, hslot, hkept⟩ := exists_of_shownCarousel? hstate
    have hinnerKept := hc.page hkept (List.mem_of_getElem? hinner)
    exact takes_of_acceptPage hc hstate hinner (ih hinnerKept hb) h

theorem takes_of_accept {identity : CardIdentity} {route : ImageRoute} {a : Accepted σ}
    (hc : c.IsKept) (h : c.accept sizes identity route url bitmap = some a) :
    Takes sizes route.node url bitmap route.hops c a := by
  unfold accept at h
  split at h
  · exact takes_of_acceptAt hc h
  · cases h

/-! ## What is taken is accepted -/

/-- A bitmap for a slot that is shown under its URL is accepted. -/
theorem exists_acceptHere {l : LiveLayout σ} {n : OutlineNode} {i : ImageSlot} (hc : c.IsKept)
    (hl : c.live = some l) (hn : n ∈ l.root.nodes) (hshown : n.hidden = false)
    (hslot : n.slot = .image i) (sizes : ImageSizes) (bitmap : Bitmap) :
    ∃ a, c.acceptHere sizes n.id i.url bitmap = some a := by
  have hlaid := hc.isLaidOut hl
  obtain ⟨board, hboard, hsound, -⟩ := hlaid.sound.exists_follow (.replace (.image n.id)
    (Rules.image n.id n.view i (sizes.insert i.url bitmap.size) c.settings.displayScale))
  obtain ⟨t, ht, -⟩ := c.exists_resettle l hsound (l.images.insert n.id
    ⟨n.view.fit c.settings.displayScale bitmap, bitmap.size⟩)
  rw [acceptHere_eq hl (hlaid.shownNode?_eq hl hn hshown) hslot rfl, hboard]
  simp only [Except.toOption, Option.bind_some, ht]
  exact ⟨_, rfl⟩

theorem shownCarousel?_eq {l : LiveLayout σ} {n : OutlineNode} {spacing : Binary64}
    {extent : Extent} {state : CarouselState (Card σ)} (h : c.IsLaidOut l)
    (hl : c.live = some l) (hn : n ∈ l.root.nodes) (hshown : n.hidden = false)
    (hslot : n.slot = .carousel spacing extent) (hstate : c.carousel? n.path = some state) :
    c.shownCarousel? n.id = some state := by
  rw [shownCarousel?, h.shownNode?_eq hl hn hshown]
  simp only [Option.bind_eq_bind, Option.bind_some, hslot, hstate]

/-- What a page of a carousel that is shown has accepted, the card accepts. -/
theorem exists_acceptPage {l : LiveLayout σ} {n : OutlineNode} {spacing : Binary64}
    {extent : Extent} (hc : c.IsKept) (hl : c.live = some l) (hn : n ∈ l.root.nodes)
    (hshown : n.hidden = false) (hslot : n.slot = .carousel spacing extent) (page : Nat)
    (state : CarouselState (Card σ)) (a : Accepted σ) :
    ∃ b, c.acceptPage n.id page state a = some b := by
  have hlaid := hc.isLaidOut hl
  obtain ⟨board, hboard, hsound⟩ := pageBoard_isSound hlaid.sound n
    (pagesExtent spacing (state.pages.set page a.card)).height
  obtain ⟨t, ht, -⟩ := (c.withPage n.path state page a.card).exists_resettle l hsound l.images
  rw [acceptPage_eq hl (hlaid.shownNode?_eq hl hn hshown) rfl hslot, hboard]
  simp only [Except.toOption, Option.bind_some, ht]
  exact ⟨_, rfl⟩

end Accept

/-! ## Cards stay in order -/

/-- A carousel around a page that changed has the height of its pages again. -/
theorem Suits.withPage {c card : Card σ} {l : LiveLayout σ} {n : OutlineNode} {spacing : Binary64}
    {extent : Extent} {board : Board σ} {page : Nat} {state : CarouselState (Card σ)}
    (h : c.IsLaidOut l) (hn : n ∈ l.root.nodes) (hslot : n.slot = .carousel spacing extent)
    (hboard : pageBoard l n (pagesExtent spacing (state.pages.set page card)).height = .ok board) :
    (c.withPage n.path state page card).Suits l.root board.sheet := by
  have hother : ∀ o, o ≠ .carousel n.id →
      board.sheet.ofOwner o = l.measured.board.sheet.ofOwner o := by
    intro o ho
    unfold pageBoard at hboard
    split at hboard
    · cases hboard
      rfl
    · rw [(h.sound.of_follow hboard).2, Sheet.ofOwner_replace_of_ne _ _ ho]
  constructor
  · intro k hk hshown i hi
    obtain ⟨sizes, hsizes⟩ := h.suits.images k hk hshown i hi
    exact ⟨sizes, (hother _ (by simp)).trans hsizes⟩
  · intro k hk hshown hflexible spacing' extent' hk' state' hstate'
    rw [carousel?_withPage] at hstate'
    by_cases hid : k.id = n.id
    · have hkn : k = n := h.eq_of_id hk hn hid
      subst hkn
      cases hslot.symm.trans hk'
      rw [if_pos rfl, Option.some.injEq] at hstate'
      subst hstate'
      rw [pageBoard, if_neg (by simp [hflexible])] at hboard
      rw [(h.sound.of_follow hboard).2, Sheet.ofOwner_replace_self]
    · have hpath := h.path_ne hk hn hid
      rw [if_neg hpath] at hstate'
      rw [hother _ (by simpa using hid)]
      exact h.suits.carousels k hk hshown hflexible spacing' extent' hk' state' hstate'

theorem mentionOnly_pageBoard {c : Card σ} {l : LiveLayout σ} {n : OutlineNode} {height : Binary64}
    {board : Board σ} (h : c.IsLaidOut l) (hn : n ∈ l.root.nodes) (hshown : n.hidden = false)
    (hboard : pageBoard l n height = .ok board) :
    MentionOnly l.root.Shows board.sheet.constraints := by
  unfold pageBoard at hboard
  split at hboard
  · cases hboard
    exact h.mentions
  · rw [(h.sound.of_follow hboard).2]
    refine Sheet.mentionOnly_edit h.mentions (mentionOnly_cons.mpr ⟨?_, mentionOnly_nil⟩)
    exact Constraint.mentionsOnly_fixed.mpr ⟨n, hn, hshown, rfl⟩

/-- A card that takes a bitmap stays in order. -/
theorem Takes.isKept {sizes : ImageSizes} {node : Nat} {url : String} {bitmap : Bitmap}
    {hops : List (Nat × Nat)} {c : Card σ} {a : Accepted σ}
    (h : Takes sizes node url bitmap hops c a) (hc : c.IsKept) : a.card.IsKept := by
  induction h with
  | @here c l t n i board hl hn hid hshown hslot hurl hboard ht =>
    subst hid
    have hlaid := hc.isLaidOut hl
    refine .of hc.pages fun t' ht' => ?_
    cases ht'
    refine isLaidOut_of_settled ht hlaid.ids hlaid.paths ?_ hlaid.keepsPages hlaid.dropsPages
      hlaid.regular ?_
    · rw [(hlaid.sound.of_follow hboard).2]
      exact (hlaid.suits.edit_image hlaid.ids hn hslot _).withLive _
    · rw [(hlaid.sound.of_follow hboard).2]
      exact Sheet.mentionOnly_edit hlaid.mentions
        (Rules.mentionOnly_image ⟨n, hn, hshown, rfl⟩ n.view i _ _)
  | @page c inner l t n spacing extent state carousel page hops a board hl hn hid hshown hslot
      hstate hinner ha hboard ht ih =>
    have hlaid := hc.isLaidOut hl
    have hkept := ih (hc.page hstate (List.mem_of_getElem? hinner))
    have hpages : ∀ p ∈ state.pages.set page a.card, p.IsKept := by
      intro p hp
      rcases List.mem_or_eq_of_mem_set hp with hp | rfl
      · exact hc.page hstate hp
      · exact hkept
    refine .of (hc.pages.put fun _ p hp => hpages p (List.mem_of_getElem? hp)) fun t' ht' => ?_
    cases ht'
    refine isLaidOut_of_settled ht hlaid.ids hlaid.paths
      ((Suits.withPage hlaid hn hslot hboard).withLive _)
      (fun k hk => (hlaid.keepsPages k hk).withPage) (fun k hk hhidden => ?_) hlaid.regular
      (mentionOnly_pageBoard hlaid hn hshown hboard)
    have hdropped := hlaid.dropsPages k hk hhidden
    have hpath : n.path ≠ k.path := fun hpath => by
      rw [hpath, hdropped] at hstate
      cases hstate
    exact (carousel?_withPage.trans (if_neg hpath)).trans hdropped

end Card
end MessageCard
