import Mathlib.Data.List.Basic
import Std.Data.String.ToNat

/-!
# Texts that end with a number in brackets

The path of an element is the path of what it is an element of, with a number in brackets after it.
Both can be read off the text.
-/
namespace MessageCard

/-- What stands before and after the last of some separators can be told. -/
theorem append_cons_inj_of_last {sep : Char} {a b d e : List Char} (hd : sep ∉ d) (he : sep ∉ e)
    (h : a ++ sep :: d = b ++ sep :: e) : a = b ∧ d = e := by
  rcases List.append_eq_append_iff.mp h with ⟨t, rfl, ht⟩ | ⟨t, rfl, ht⟩ <;> cases t with
  | nil => simpa [eq_comm] using ht
  | cons c t =>
    obtain ⟨-, ht⟩ := List.cons.inj ht
    simp [ht] at hd he

/-- No number is written with a bracket. -/
theorem bracket_not_mem_repr (n : Nat) : '[' ∉ (toString n).toList := by
  intro hmem
  have hdigit : ('[').isDigit = true := by
    refine Nat.isDigit_of_mem_toDigits (b := 10) (n := n) (by decide) (by decide) ?_
    simpa [toString, Nat.repr] using hmem
  exact absurd hdigit (by decide)

/-- The paths of two elements are the same only for the same element of the same place. -/
theorem element_path_inj {p q : String} {i j : Nat} :
    p ++ ".items[" ++ toString i ++ "]" = q ++ ".items[" ++ toString j ++ "]" ↔
      p = q ∧ i = j := by
  constructor
  · intro h
    have hchars : (p.toList ++ ".items".toList) ++ '[' :: (toString i).toList =
        (q.toList ++ ".items".toList) ++ '[' :: (toString j).toList := by
      have hlist := congrArg String.toList ((String.append_left_inj _).mp h)
      simpa [String.toList_append] using hlist
    obtain ⟨hpath, hindex⟩ :=
      append_cons_inj_of_last (bracket_not_mem_repr i) (bracket_not_mem_repr j) hchars
    exact ⟨String.toList_inj.mp (List.append_cancel_right hpath),
      Nat.repr_inj.mp (String.toList_inj.mp hindex)⟩
  · rintro ⟨rfl, rfl⟩
    rfl

end MessageCard
