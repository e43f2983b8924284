import MessageCard.Card.Scrolling
import MessageCard.Proofs.Card.Claims

/-!
# What the history of a card says

A card is rendered again and again, fails to be rendered, has its carousels scrolled, and gets
bitmaps in between. What it keeps of a carousel can be told from these events alone, however long ago
they were: a carousel is kept if the last message that was rendered showed it, and its offset is the
one last set for it if all messages rendered since then had the same identity and showed it with as
many pages, and zero if not. Each event, by what it does to the carousels that are kept, leaves the
card as its history says.
-/
namespace MessageCard

/-- What happened to a card. -/
inductive CardEvent where
  /-- A message was rendered, and its layout shows some carousels. -/
  | rendered (identity : CardIdentity) (shown : List CarouselSpot)
  /-- A message could not be rendered. -/
  | failed
  /-- A carousel, of some number of pages, was scrolled. -/
  | scrolled (key : CarouselKey) (pages : Nat) (offset : Binary64)
  /-- A bitmap arrived, or the width was changed. -/
  | aside

namespace CardEvent

/-- The identity of a message that was rendered, with the carousels shown. -/
def rendering? : CardEvent → Option (CardIdentity × List CarouselSpot)
  | .rendered identity shown => some (identity, shown)
  | _ => none

/-- Whether a carousel of so many pages keeps the offset that was set for it before. -/
def Keeps (key : CarouselKey) (pages : Nat) : CardEvent → Prop
  | .rendered identity shown => identity = key.identity ∧ ⟨key.path, pages⟩ ∈ shown
  | .scrolled other _ _ => other ≠ key
  | _ => True

end CardEvent

namespace Card

/-- The last message that was rendered, with the carousels shown. -/
def lastRendering? (past : List CardEvent) : Option (CardIdentity × List CarouselSpot) :=
  past.reverse.findSome? CardEvent.rendering?

/-- Whether the last message that was rendered had the identity of a key and showed a carousel of so
many pages at its path. -/
def showed (past : List CardEvent) (key : CarouselKey) (pages : Nat) : Bool :=
  (lastRendering? past).any fun r => r.1 = key.identity && r.2.contains ⟨key.path, pages⟩

/-- An offset was set for a carousel of so many pages and none after it, and every message rendered
since then had the same identity and showed the carousel with as many pages. -/
def LastSet (past : List CardEvent) (key : CarouselKey) (pages : Nat) (offset : Binary64) : Prop :=
  ∃ earlier later, past = earlier ++ .scrolled key pages offset :: later ∧
    ∀ e ∈ later, e.Keeps key pages

section Events

variable {past : List CardEvent} {e : CardEvent} {key : CarouselKey} {pages : Nat}
  {offset : Binary64}

theorem lastRendering?_concat (past : List CardEvent) (e : CardEvent) :
    lastRendering? (past ++ [e]) = e.rendering?.or (lastRendering? past) := by
  rw [lastRendering?, List.reverse_append, List.reverse_singleton, List.singleton_append,
    List.findSome?_cons]
  cases e.rendering? <;> rfl

theorem showed_concat_rendered (past : List CardEvent) (identity : CardIdentity)
    (shown : List CarouselSpot) (key : CarouselKey) (pages : Nat) :
    showed (past ++ [.rendered identity shown]) key pages = true ↔
      identity = key.identity ∧ ⟨key.path, pages⟩ ∈ shown := by
  rw [showed, lastRendering?_concat]
  simp [CardEvent.rendering?]

theorem showed_concat_of_none (h : e.rendering? = none) (past : List CardEvent) :
    showed (past ++ [e]) = showed past := by
  funext key pages
  rw [showed, lastRendering?_concat, h, Option.none_or, showed]

/-- An offset that was last set has been set just now, or it was last set before and is kept. -/
theorem lastSet_concat : LastSet (past ++ [e]) key pages offset ↔
    e = .scrolled key pages offset ∨ LastSet past key pages offset ∧ e.Keeps key pages := by
  constructor
  · rintro ⟨earlier, later, heq, hkeeps⟩
    rcases List.eq_nil_or_concat later with rfl | ⟨init, last, rfl⟩
    · exact .inl (List.singleton_inj.mp (List.append_inj_right' heq rfl))
    · rw [List.concat_eq_append, ← List.cons_append, ← List.append_assoc] at heq
      obtain ⟨rfl, hlast⟩ := List.append_inj' heq rfl
      obtain rfl := List.singleton_inj.mp hlast
      rw [List.concat_eq_append] at hkeeps
      refine .inr ⟨⟨earlier, init, rfl, fun e he => ?_⟩, ?_⟩
      · exact hkeeps e (List.mem_append_left _ he)
      · exact hkeeps _ List.mem_concat_self
  · rintro (rfl | ⟨⟨earlier, later, rfl, hkeeps⟩, he⟩)
    · exact ⟨past, [], rfl, fun _ h => absurd h List.not_mem_nil⟩
    · refine ⟨earlier, later ++ [e], by simp, fun f hf => ?_⟩
      rcases List.mem_append.mp hf with hf | hf
      · exact hkeeps f hf
      · exact List.mem_singleton.mp hf ▸ he

end Events

/-! ## What is kept -/

variable {σ : Type} {c d : Card σ} {past : List CardEvent} {e : CardEvent}
  {identity : CardIdentity} {shown : List CarouselSpot}

open CarouselRecord

/-- What a card keeps of carousels when it has rendered a message. -/
structure IsRendering (c : Card σ) (identity : CardIdentity) (shown : List CarouselSpot)
    (d : Card σ) : Prop where
  kept : ∀ spot ∈ shown, d.carousels.record? (spot.on identity) =
    some ⟨spot.pages, claimedScroll (c.carousels.record? (spot.on identity)) spot.pages⟩
  dropped : ∀ key, (∀ spot ∈ shown, spot.on identity ≠ key) → d.carousels.record? key = none
  builds_eq : d.carousels.builds = c.carousels.builds +
    shown.countP fun spot => !isReused (c.carousels.record? (spot.on identity)) spot.pages

/-- What is kept after a rendering belongs to a carousel that was shown. -/
theorem IsRendering.of_record? (h : IsRendering c identity shown d) {key : CarouselKey} {pages : Nat}
    {scroll : Binary64} (hrecord : d.carousels.record? key = some ⟨pages, scroll⟩) :
    identity = key.identity ∧ ⟨key.path, pages⟩ ∈ shown ∧
      scroll = claimedScroll (c.carousels.record? key) pages := by
  by_cases hkey : ∃ spot ∈ shown, spot.on identity = key
  · obtain ⟨spot, hspot, rfl⟩ := hkey
    cases (h.kept spot hspot).symm.trans hrecord
    exact ⟨rfl, hspot, rfl⟩
  · have hdropped := h.dropped key fun spot hs he => hkey ⟨spot, hs, he⟩
    cases hdropped.symm.trans hrecord

/-- What a card keeps is what its history says. -/
structure Remembers (past : List CardEvent) (c : Card σ) : Prop where
  showed_iff : ∀ key pages, showed past key pages = true ↔
    ∃ scroll, c.carousels.record? key = some ⟨pages, scroll⟩
  showed_of_lastSet : ∀ key pages offset, LastSet past key pages offset →
    showed past key pages = true
  scroll_of_lastSet : ∀ key pages scroll, c.carousels.record? key = some ⟨pages, scroll⟩ →
    ∀ offset, LastSet past key pages offset → scroll = max offset 0
  scroll_of_not : ∀ key pages scroll, c.carousels.record? key = some ⟨pages, scroll⟩ →
    (¬∃ offset, LastSet past key pages offset) → scroll = 0

/-- A carousel finds something to claim exactly if the last message that was rendered showed it. -/
theorem Remembers.isReused_eq (h : Remembers past c) (key : CarouselKey) (pages : Nat) :
    isReused (c.carousels.record? key) pages = showed past key pages := by
  rw [Bool.eq_iff_iff, h.showed_iff]
  cases c.carousels.record? key with
  | none => simp
  | some record =>
    obtain ⟨n, scroll⟩ := record
    simp [eq_comm]

/-- A new card has nothing to remember. -/
theorem remembers_new (s : LayoutSettings) : Remembers [] (new s : Card σ) where
  showed_iff _ _ := ⟨fun h => (nomatch h), fun ⟨_, h⟩ => (nomatch h)⟩
  showed_of_lastSet key pages offset h := by
    obtain ⟨earlier, later, h, -⟩ := h
    simp at h
  scroll_of_lastSet _ _ _ h := nomatch h
  scroll_of_not _ _ _ h := nomatch h

/-- An event that leaves all carousels as they are. -/
theorem Remembers.keep (h : Remembers past c)
    (hsame : ∀ key, d.carousels.record? key = c.carousels.record? key)
    (he : e = .failed ∨ e = .aside) : Remembers (past ++ [e]) d := by
  have hshowed : showed (past ++ [e]) = showed past :=
    showed_concat_of_none (by rcases he with rfl | rfl <;> rfl) past
  have hlast : ∀ key pages offset,
      LastSet (past ++ [e]) key pages offset ↔ LastSet past key pages offset := by
    intro key pages offset
    rw [lastSet_concat]
    rcases he with rfl | rfl <;> simp [CardEvent.Keeps]
  refine ⟨?_, ?_, ?_, ?_⟩ <;> simp only [hshowed, hlast, hsame]
  · exact h.showed_iff
  · exact h.showed_of_lastSet
  · exact h.scroll_of_lastSet
  · exact h.scroll_of_not

/-- A carousel that was scrolled is where it was scrolled to, and all others are where they were. -/
theorem Remembers.scroll (h : Remembers past c) {key : CarouselKey} {pages : Nat}
    {before offset : Binary64} (hfound : c.carousels.record? key = some ⟨pages, before⟩)
    (hset : ∀ other, d.carousels.record? other =
      if key = other then some ⟨pages, max offset 0⟩ else c.carousels.record? other) :
    Remembers (past ++ [.scrolled key pages offset]) d := by
  have hshowed : showed (past ++ [.scrolled key pages offset]) = showed past :=
    showed_concat_of_none rfl past
  have hkey : showed past key pages = true := (h.showed_iff key pages).mpr ⟨before, hfound⟩
  -- Of two records of one carousel the number of pages is the same.
  have hpages : ∀ n scroll, c.carousels.record? key = some ⟨n, scroll⟩ → n = pages := by
    intro n scroll hn
    cases hfound.symm.trans hn
    rfl
  refine ⟨fun other n => ?_, fun other n o hlast => ?_, fun other n scroll hrecord o hlast => ?_,
    fun other n scroll hrecord hnone => ?_⟩
  · rw [hshowed, hset, h.showed_iff]
    split
    case isTrue hother =>
      subst hother
      constructor
      · rintro ⟨scroll, hn⟩
        exact ⟨_, by rw [hpages n scroll hn]⟩
      · rintro ⟨scroll, hn⟩
        cases hn
        exact ⟨before, hfound⟩
    case isFalse => rfl
  · rw [hshowed]
    rcases lastSet_concat.mp hlast with he | ⟨hlast, -⟩
    · cases he
      exact hkey
    · exact h.showed_of_lastSet other n o hlast
  · rw [hset] at hrecord
    rcases lastSet_concat.mp hlast with he | ⟨hlast, hne⟩
    · cases he
      rw [if_pos rfl] at hrecord
      cases hrecord
      rfl
    · rw [if_neg hne] at hrecord
      exact h.scroll_of_lastSet other n scroll hrecord o hlast
  · rw [hset] at hrecord
    split at hrecord
    case isTrue hother =>
      cases hother
      cases hrecord
      exact absurd ⟨offset, lastSet_concat.mpr (.inl rfl)⟩ hnone
    case isFalse hother =>
      refine h.scroll_of_not other n scroll hrecord fun ⟨o, hlast⟩ => hnone ⟨o, ?_⟩
      exact lastSet_concat.mpr (.inr ⟨hlast, hother⟩)

/-- A message that was rendered carries over what the last one had at the same paths, under the same
identity and with as many pages. -/
theorem Remembers.render (h : Remembers past c) (hrendering : IsRendering c identity shown d) :
    Remembers (past ++ [.rendered identity shown]) d := by
  have hkept : ∀ key pages, identity = key.identity → ⟨key.path, pages⟩ ∈ shown →
      d.carousels.record? key = some ⟨pages, claimedScroll (c.carousels.record? key) pages⟩ := by
    rintro key pages rfl hmem
    exact hrendering.kept _ hmem
  refine ⟨fun key pages => ?_, fun key pages offset hlast => ?_,
    fun key pages scroll hrecord offset hlast => ?_, fun key pages scroll hrecord hnone => ?_⟩
  · rw [showed_concat_rendered]
    constructor
    · exact fun ⟨hidentity, hmem⟩ => ⟨_, hkept key pages hidentity hmem⟩
    · rintro ⟨scroll, hrecord⟩
      obtain ⟨hidentity, hmem, -⟩ := hrendering.of_record? hrecord
      exact ⟨hidentity, hmem⟩
  · rw [showed_concat_rendered]
    rcases lastSet_concat.mp hlast with he | ⟨-, hkeeps⟩
    · cases he
    · exact hkeeps
  · obtain ⟨-, -, rfl⟩ := hrendering.of_record? hrecord
    rcases lastSet_concat.mp hlast with he | ⟨hlast, -⟩
    · cases he
    · obtain ⟨before, hbefore⟩ :=
        (h.showed_iff key pages).mp (h.showed_of_lastSet key pages offset hlast)
      rw [hbefore, ← h.scroll_of_lastSet key pages before hbefore offset hlast]
      simp
  · obtain ⟨hidentity, hmem, rfl⟩ := hrendering.of_record? hrecord
    have hnone : ¬∃ offset, LastSet past key pages offset := fun ⟨offset, hlast⟩ =>
      hnone ⟨offset, lastSet_concat.mpr (.inr ⟨hlast, hidentity, hmem⟩)⟩
    cases hbefore : c.carousels.record? key with
    | none => rfl
    | some record =>
      rw [claimedScroll_some]
      split
      case isTrue hpages => exact h.scroll_of_not key pages _ (hpages ▸ hbefore) hnone
      case isFalse => rfl

/-- Scrolling sets the offset of the carousel at its node. -/
theorem record?_scrollTo {node : Nat} {offset : Binary64} {key : CarouselKey}
    {state : CarouselState (Card σ)} (found : c.carouselAt? node = some (key, state))
    (h : c.scrollTo? node offset = some d) (other : CarouselKey) :
    d.carousels.record? other = if key = other then some ⟨state.pages.length, max offset 0⟩
      else c.carousels.record? other := by
  rw [scrollTo?, found] at h
  cases h
  exact CarouselCache.record?_put ..

theorem record?_of_carouselAt? {node : Nat} {key : CarouselKey} {state : CarouselState (Card σ)}
    (found : c.carouselAt? node = some (key, state)) :
    c.carousels.record? key = some state.record := by
  obtain ⟨n, -, hn⟩ := Option.bind_eq_some_iff.mp found
  cases hslot : n.slot with
  | carousel spacing extent =>
    simp only [hslot] at hn
    obtain ⟨state', hstate, hn⟩ := Option.bind_eq_some_iff.mp hn
    cases hn
    exact congrArg (Option.map CarouselState.record) hstate
  | _ => simp [hslot] at hn

end Card
end MessageCard
