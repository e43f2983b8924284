import Mathlib.Data.List.Perm.Subperm
import Mathlib.Data.Set.Defs
import Mathlib.Data.String.Basic
import MessageCard.Catalog.Shelf

/-!
# The order of sync tokens

Two numbers are ordered by value, any other two tokens as texts. Each of the two orders is a total
one, but they need not agree: a token that is no number can stand, as a text, between two numbers of
which the second is not the greater one. Where this happens the order of tokens is not transitive,
and where it happens nowhere it is. So a shelf that follows ever newer tokens can come back to where
it started, exactly if there is such a token between a number and a smaller one.
-/
namespace MessageCard

/-- Whether each token of a list is newer than what the shelf has when its turn comes. -/
def Shelf.Follows (kind : TemplateKind) : Shelf → List String → Prop
  | _, [] => True
  | s, token :: rest => s.isBehind kind token = true ∧ (s.setToken kind token).Follows kind rest

/-- Whether some shelf with a token of a set comes back to it by ever newer tokens of the set. -/
def Shelf.GoesRound (tokens : Set String) : Prop :=
  ∃ (s : Shelf) (kind : TemplateKind) (start : String) (others : List String),
    s.token? kind = some start ∧ (∀ token ∈ start :: others, token ∈ tokens) ∧
      s.Follows kind (others ++ [start])

theorem Shelf.isBehind_iff {s : Shelf} {kind : TemplateKind} {own : String}
    (hown : s.token? kind = some own) (token : String) :
    s.isBehind kind token = true ↔ SyncToken.order token own = .gt := by
  simp [isBehind, hown]

namespace SyncToken

variable {a b c : String} {m n : Int}

/-! ## Two orders -/

theorem order_of_numbers (ha : number? a = some m) (hb : number? b = some n) :
    order a b = compare m n := by
  simp only [order, ha, hb]

theorem order_of_text (h : number? a = none ∨ number? b = none) : order a b = compare a b := by
  unfold order
  split
  · next ha hb => simp [ha, hb] at h
  · rfl

theorem order_self (a : String) : order a a = .eq := by
  unfold order
  cases number? a with
  | none => exact Std.compare_self
  | some n => exact Std.compare_self

theorem order_swap (a b : String) : order b a = (order a b).swap := by
  unfold order
  cases number? a with
  | none => cases number? b <;> exact Std.OrientedOrd.eq_swap
  | some m => cases number? b <;> exact Std.OrientedOrd.eq_swap

theorem order_eq_gt_iff : order a b = .gt ↔ order b a = .lt := by
  rw [order_swap a b, Ordering.swap_eq_lt]

/-- A number and a token that is none differ as texts. -/
theorem ne_of_number (ha : number? a = some m) (hb : number? b = none) : a ≠ b := by
  rintro rfl
  rw [ha] at hb
  cases hb

/-! ## Where the orders meet -/

/-- A token that is no number stands as a text between two numbers with given values. -/
structure StandsBetween (t x y : String) (m n : Int) : Prop where
  text : number? t = none
  first : number? x = some m
  last : number? y = some n
  after : x < t
  before : t < y

/-- Whether a token of a set that is no number stands between two that are, the second of which is
not the greater one. -/
def IsCrossed (tokens : Set String) : Prop :=
  ∃ t ∈ tokens, ∃ x ∈ tokens, ∃ y ∈ tokens, ∃ m n, StandsBetween t x y m n ∧ n ≤ m

/-- Whether a token of a set that is no number stands between two that are, the second of which is
the smaller one. -/
def IsReversed (tokens : Set String) : Prop :=
  ∃ t ∈ tokens, ∃ x ∈ tokens, ∃ y ∈ tokens, ∃ m n, StandsBetween t x y m n ∧ n < m

namespace StandsBetween

variable {t x y : String} (h : StandsBetween t x y m n)

include h

theorem order_first : order x t = .lt :=
  (order_of_text (.inr h.text)).trans (compare_lt_iff_lt.mpr h.after)

theorem order_last : order t y = .lt :=
  (order_of_text (.inl h.text)).trans (compare_lt_iff_lt.mpr h.before)

theorem order_numbers : order y x = compare n m := order_of_numbers h.last h.first

end StandsBetween

variable {tokens : Set String}

/-- Without a crossing the order is transitive. -/
theorem order_trans (hcross : ¬ IsCrossed tokens) (ha : a ∈ tokens) (hb : b ∈ tokens)
    (hc : c ∈ tokens) (hab : order a b ≠ .gt) (hbc : order b c ≠ .gt) : order a c ≠ .gt := by
  intro hac
  cases hma : number? a with
  | none =>
    rw [order_of_text (.inl hma), compare_gt_iff_gt] at hac
    rw [order_of_text (.inl hma), compare_le_iff_le] at hab
    cases hmb : number? b with
    | none =>
      rw [order_of_text (.inl hmb), compare_le_iff_le] at hbc
      exact absurd hac (hab.trans hbc).not_gt
    | some n =>
      cases hmc : number? c with
      | none =>
        rw [order_of_text (.inr hmc), compare_le_iff_le] at hbc
        exact absurd hac (hab.trans hbc).not_gt
      | some p =>
        -- The text is before `b` and after `c`, although `b` is not greater than `c`.
        rw [order_of_numbers hmb hmc, compare_le_iff_le] at hbc
        have hlt : a < b := lt_of_le_of_ne hab (ne_of_number hmb hma).symm
        exact hcross ⟨a, ha, c, hc, b, hb, p, n, ⟨hma, hmc, hmb, hac, hlt⟩, hbc⟩
  | some m =>
    cases hmb : number? b with
    | none =>
      rw [order_of_text (.inr hmb), compare_le_iff_le] at hab
      rw [order_of_text (.inl hmb), compare_le_iff_le] at hbc
      cases hmc : number? c with
      | none =>
        rw [order_of_text (.inr hmc), compare_gt_iff_gt] at hac
        exact absurd hac (hab.trans hbc).not_gt
      | some p =>
        rw [order_of_numbers hma hmc, compare_gt_iff_gt] at hac
        have hlow : a < b := lt_of_le_of_ne hab (ne_of_number hma hmb)
        have hhigh : b < c := lt_of_le_of_ne hbc (ne_of_number hmc hmb).symm
        exact hcross ⟨b, hb, a, ha, c, hc, m, p, ⟨hmb, hma, hmc, hlow, hhigh⟩, hac.le⟩
    | some n =>
      rw [order_of_numbers hma hmb, compare_le_iff_le] at hab
      cases hmc : number? c with
      | none =>
        rw [order_of_text (.inr hmc), compare_gt_iff_gt] at hac
        rw [order_of_text (.inr hmc), compare_le_iff_le] at hbc
        have hlt : b < c := lt_of_le_of_ne hbc (ne_of_number hmb hmc)
        exact hcross ⟨c, hc, b, hb, a, ha, n, m, ⟨hmc, hmb, hma, hlt, hac⟩, hab⟩
      | some p =>
        rw [order_of_numbers hma hmc, compare_gt_iff_gt] at hac
        rw [order_of_numbers hmb hmc, compare_le_iff_le] at hbc
        omega

/-- Where the order is transitive, so is the order of newer and older. -/
theorem order_lt_trans
    (htrans : ∀ a ∈ tokens, ∀ b ∈ tokens, ∀ c ∈ tokens,
      order a b ≠ .gt → order b c ≠ .gt → order a c ≠ .gt)
    (ha : a ∈ tokens) (hb : b ∈ tokens) (hc : c ∈ tokens) (hab : order a b = .lt)
    (hbc : order b c = .lt) : order a c = .lt := by
  by_contra hac
  have hca : order c a ≠ .gt := fun h => hac (order_eq_gt_iff.mp h)
  have hcb : order c b ≠ .gt := htrans c hc a ha b hb hca (by simp [hab])
  exact hcb (order_eq_gt_iff.mpr hbc)

/-- Three tokens are crossed only if two of them are numbers and the third is none. -/
theorem not_isCrossed_of_three (h : [a, b, c].countP (fun t => (number? t).isSome) ≠ 2) :
    ¬ IsCrossed {t | t ∈ [a, b, c]} := by
  rintro ⟨t, ht, x, hx, y, hy, m, n, hbetween, -⟩
  have hdistinct : [t, x, y].Nodup := by
    simp [hbetween.after.ne', hbetween.before.ne, (hbetween.after.trans hbetween.before).ne]
  have hsubset : [t, x, y] ⊆ [a, b, c] :=
    List.cons_subset.mpr ⟨ht, List.cons_subset.mpr ⟨hx, List.cons_subset.mpr ⟨hy, by simp⟩⟩⟩
  have hperm : [t, x, y].Perm [a, b, c] :=
    (hdistinct.subperm hsubset).perm_of_length_le le_rfl
  apply h
  rw [← hperm.countP_eq]
  simp [hbetween.text, hbetween.first, hbetween.last]

/-! ## Following newer tokens -/

/-- What holds of a token and a later one among ever newer tokens: two numbers are in the order of
their values, or a text stands between them; all other pairs are in the order of texts. -/
def Precedes (tokens : Set String) (a b : String) : Prop :=
  match number? a, number? b with
  | some m, some n => m < n ∨ ∃ t ∈ tokens, number? t = none ∧ a < t ∧ t < b
  | _, _ => a < b

theorem precedes_of_numbers (ha : number? a = some m) (hb : number? b = some n) :
    Precedes tokens a b ↔ m < n ∨ ∃ t ∈ tokens, number? t = none ∧ a < t ∧ t < b := by
  simp only [Precedes, ha, hb]

theorem precedes_of_text (h : number? a = none ∨ number? b = none) :
    Precedes tokens a b ↔ a < b := by
  unfold Precedes
  split
  · next ha hb => simp [ha, hb] at h
  · rfl

theorem not_precedes_self (a : String) : ¬ Precedes tokens a a := by
  cases ha : number? a with
  | none =>
    rw [precedes_of_text (.inl ha)]
    exact lt_irrefl a
  | some m =>
    rw [precedes_of_numbers ha ha]
    rintro (h | ⟨t, -, -, hat, hta⟩)
    · exact lt_irrefl m h
    · exact lt_asymm hat hta

theorem precedes_of_order (h : order a b = .lt) : Precedes tokens a b := by
  cases ha : number? a with
  | none =>
    rw [order_of_text (.inl ha), compare_lt_iff_lt] at h
    exact (precedes_of_text (.inl ha)).mpr h
  | some m =>
    cases hb : number? b with
    | none =>
      rw [order_of_text (.inr hb), compare_lt_iff_lt] at h
      exact (precedes_of_text (.inr hb)).mpr h
    | some n =>
      rw [order_of_numbers ha hb, compare_lt_iff_lt] at h
      exact (precedes_of_numbers ha hb).mpr (.inl h)

/-- Without a reversal, a text after the greater of two numbers is after the smaller one. -/
theorem lt_text_of_lt (hrev : ¬ IsReversed tokens) (ha : a ∈ tokens) (hb : b ∈ tokens)
    (hna : number? a = some m) (hnb : number? b = some n) (hmn : m < n) {t : String}
    (ht : t ∈ tokens) (htext : number? t = none) (hbt : b < t) : a < t := by
  by_contra hat
  have hta : t < a := lt_of_le_of_ne (not_lt.mp hat) (ne_of_number hna htext).symm
  exact hrev ⟨t, ht, b, hb, a, ha, n, m, ⟨htext, hnb, hna, hbt, hta⟩, hmn⟩

/-- Without a reversal, one step before a row of newer tokens keeps what holds along it. -/
theorem Precedes.of_step (hrev : ¬ IsReversed tokens) (ha : a ∈ tokens) (hb : b ∈ tokens)
    (hc : c ∈ tokens) (hab : order a b = .lt) (hbc : Precedes tokens b c) :
    Precedes tokens a c := by
  cases hna : number? a with
  | none =>
    rw [precedes_of_text (.inl hna)]
    rw [order_of_text (.inl hna), compare_lt_iff_lt] at hab
    cases hnb : number? b with
    | none => exact hab.trans ((precedes_of_text (.inl hnb)).mp hbc)
    | some n =>
      cases hnc : number? c with
      | none => exact hab.trans ((precedes_of_text (.inr hnc)).mp hbc)
      | some p =>
        rcases (precedes_of_numbers hnb hnc).mp hbc with hlt | ⟨t, -, -, hbt, htc⟩
        · -- If `c` were before the text `a`, so would be the smaller `b`.
          by_contra hac
          have hca : c < a := lt_of_le_of_ne (not_lt.mp hac) (ne_of_number hnc hna)
          exact lt_asymm hab (lt_text_of_lt hrev hb hc hnb hnc hlt ha hna hca)
        · exact hab.trans (hbt.trans htc)
  | some m =>
    cases hnb : number? b with
    | none =>
      rw [order_of_text (.inr hnb), compare_lt_iff_lt] at hab
      have hlt : b < c := (precedes_of_text (.inl hnb)).mp hbc
      cases hnc : number? c with
      | none => exact (precedes_of_text (.inr hnc)).mpr (hab.trans hlt)
      | some p => exact (precedes_of_numbers hna hnc).mpr (.inr ⟨b, hb, hnb, hab, hlt⟩)
    | some n =>
      rw [order_of_numbers hna hnb, compare_lt_iff_lt] at hab
      cases hnc : number? c with
      | none =>
        rw [precedes_of_text (.inr hnc)] at hbc ⊢
        exact lt_text_of_lt hrev ha hb hna hnb hab hc hnc hbc
      | some p =>
        rw [precedes_of_numbers hna hnc]
        rcases (precedes_of_numbers hnb hnc).mp hbc with hlt | ⟨t, ht, htext, hbt, htc⟩
        · exact .inl (hab.trans hlt)
        · exact .inr ⟨t, ht, htext, lt_text_of_lt hrev ha hb hna hnb hab ht htext hbt, htc⟩

/-- Without a reversal, a shelf that follows newer tokens leaves its own behind. -/
theorem precedes_of_follows (hrev : ¬ IsReversed tokens) {s : Shelf} {kind : TemplateKind}
    {others : List String} (hown : s.token? kind = some a)
    (hmem : ∀ token ∈ a :: others, token ∈ tokens) (hb : b ∈ tokens)
    (hfollows : s.Follows kind (others ++ [b])) : Precedes tokens a b := by
  induction others generalizing s a with
  | nil =>
    have hnewer := (s.isBehind_iff hown b).mp hfollows.1
    exact precedes_of_order (order_eq_gt_iff.mp hnewer)
  | cons c rest ih =>
    obtain ⟨hbehind, hrest⟩ := hfollows
    have hnewer := (s.isBehind_iff hown c).mp hbehind
    obtain ⟨ha, htail⟩ := List.forall_mem_cons.mp hmem
    have hlater : Precedes tokens c b := ih (by simp) htail hrest
    exact .of_step hrev ha (htail c List.mem_cons_self) hb (order_eq_gt_iff.mp hnewer) hlater

/-- A reversal sends a shelf round: from the smaller number to the greater one, to the text and back
to the smaller number. -/
theorem StandsBetween.goesRound {t x y : String} (h : StandsBetween t x y m n) (hlt : n < m)
    (ht : t ∈ tokens) (hx : x ∈ tokens) (hy : y ∈ tokens) : Shelf.GoesRound tokens := by
  refine ⟨Shelf.empty.setToken .message y, .message, y, [x, t], by simp, by simp [ht, hx, hy], ?_⟩
  have hnumbers : order y x = .lt := h.order_numbers.trans (compare_lt_iff_lt.mpr hlt)
  refine ⟨?_, ?_, ?_, trivial⟩
  · exact (Shelf.isBehind_iff (by simp) x).mpr (order_eq_gt_iff.mpr hnumbers)
  · exact (Shelf.isBehind_iff (by simp) t).mpr (order_eq_gt_iff.mpr h.order_first)
  · exact (Shelf.isBehind_iff (by simp) y).mpr (order_eq_gt_iff.mpr h.order_last)

end SyncToken
end MessageCard
