import MessageCard.Binary64

/-!
# JSON values

Numbers keep the two ways in which they are held: integers of up to 64 bits, and doubles, which know
the sign of zero. The members of an object are a list; where objects come from text the list is
sorted by key and holds each key once.
-/
namespace MessageCard

/-- A JSON number. -/
inductive JsonNumber where
  | integer (value : Int)
  | real (negative : Bool) (magnitude : Binary64)
  deriving DecidableEq

/-- A JSON value. -/
inductive Json where
  | null
  | bool (value : Bool)
  | number (value : JsonNumber)
  | string (value : String)
  | array (items : List Json)
  | object (members : List (String × Json))

instance : Inhabited Json := ⟨.null⟩

namespace JsonNumber

/-- The double that is nearest to a number. -/
def toBinary64 : JsonNumber → Binary64
  | .integer i => i
  | .real false m => m
  | .real true m => -m

/-- A double as a number. -/
def ofBinary64 (a : Binary64) : JsonNumber :=
  if a.value < 0 then .real true (-a) else .real false a

end JsonNumber

namespace Json

/-- Members with one more, which takes the place of an earlier one with its key. -/
def insertMember (key : String) (value : Json) : List (String × Json) → List (String × Json)
  | [] => [(key, value)]
  | (k, v) :: rest =>
    if key = k then (key, value) :: rest
    else if key < k then (key, value) :: (k, v) :: rest
    else (k, v) :: insertMember key value rest

/-- The value of a key among members. -/
def lookUp (key : String) : List (String × Json) → Option Json
  | [] => none
  | (k, v) :: rest => if k = key then some v else lookUp key rest

/-- The value of a key of an object. -/
def get? : Json → String → Option Json
  | .object members, key => lookUp key members
  | _, _ => none

def asString? : Json → Option String
  | .string s => some s
  | _ => none

def isNull : Json → Bool
  | .null => true
  | _ => false

/-- A text, or null. -/
def ofString? : Option String → Json
  | some s => .string s
  | none => .null

def ofInt (i : Int) : Json := .number (.integer i)

def ofNat (n : Nat) : Json := .number (.integer n)

def ofBinary64 (a : Binary64) : Json := .number (.ofBinary64 a)

/-- An object with the given members in the order of their keys. -/
def ofMembers (members : List (String × Json)) : Json :=
  .object (members.foldl (fun ms m => insertMember m.1 m.2 ms) [])

/-- An object of texts. -/
def ofStrings (texts : List (String × String)) : Json :=
  ofMembers (texts.map fun p => (p.1, .string p.2))

end Json
end MessageCard
