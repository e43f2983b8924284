/-!
# TOML values

The values of a TOML document, as far as a reader needs them. Numbers with a fraction or an exponent
keep the text by which they were written.
-/
namespace MessageCard

/-- A TOML value. -/
inductive Toml where
  | string (value : String)
  | integer (value : Int)
  | float (written : String)
  | boolean (value : Bool)
  | array (items : List Toml)
  | table (entries : List (String × Toml))

namespace Toml

def asString? : Toml → Option String
  | .string s => some s
  | _ => none

/-- The value of a key among entries. -/
def lookUp (key : String) : List (String × Toml) → Option Toml
  | [] => none
  | (k, v) :: rest => if k = key then some v else lookUp key rest

end Toml
end MessageCard
