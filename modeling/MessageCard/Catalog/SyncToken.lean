import MessageCard.Text.Blank
import MessageCard.Text.Decimal

/-!
# Sync tokens

A token marks a state of the catalog. Two tokens that are whole numbers are ordered by value; when
one of them is not, both are ordered as texts.
-/
namespace MessageCard.SyncToken

/-- The least integer of 128 bits. -/
def least : Int := -170141183460469231731687303715884105728

/-- The greatest integer of 128 bits. -/
def greatest : Int := 170141183460469231731687303715884105727

/-- The whole number that a token is, if it fits into 128 bits. -/
def number? (token : String) : Option Int :=
  (Decimal.readInt? (trim token.toList)).filter fun i => least ≤ i ∧ i ≤ greatest

/-- The order of two tokens. -/
def order (a b : String) : Ordering :=
  match number? a, number? b with
  | some m, some n => compare m n
  | _, _ => compare a b

end MessageCard.SyncToken
