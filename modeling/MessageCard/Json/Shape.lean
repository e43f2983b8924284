import MessageCard.Json.Writer
import MessageCard.Text.Quoted

/-!
# Reading records from JSON values

A record is a fixed set of fields, read from an object by name or from an array by place. Every
field has a default that stands for an absent value; a value of the wrong kind is an error. The
fields of an object are looked at in the order of their keys, those of an array in the order of the
record, and the first error counts.
-/
namespace MessageCard.Json

/-- Why a value does not have the expected shape. -/
inductive ShapeError where
  | wrongKind (found expected : String)
  /-- An array with more elements than the record has fields. -/
  | tooLong (length : Nat)
  deriving DecidableEq, Repr

def ShapeError.message : ShapeError → String
  | .wrongKind found expected => "invalid type: " ++ found ++ ", expected " ++ expected
  | .tooLong n => "invalid length " ++ toString n ++ ", expected fewer elements in array"

/-- How a message names a value; a value without parts is shown as well. -/
def kindName : Json → String
  | .null => "null"
  | .bool b => "boolean `" ++ (Json.bool b).toText ++ "`"
  | .number (.integer i) => "integer `" ++ (ofInt i).toText ++ "`"
  | .number (.real negative m) =>
    "floating point `" ++ (Json.number (.real negative m)).toText ++ "`"
  | .string s => "string " ++ quoted s
  | .array _ => "sequence"
  | .object _ => "map"

def wrongKind (found : Json) (expected : String) : ShapeError :=
  .wrongKind found.kindName expected

/-- A field of a record: its name, and what its value has to be. -/
structure Field where
  name : String
  check : Json → Except ShapeError Unit

/-- The check of the values of an object, in the order of their keys. -/
def checkMembers (fields : List Field) : List (String × Json) → Except ShapeError Unit
  | [] => .ok ()
  | (k, v) :: rest =>
    match fields.find? (·.name = k) with
    | some f => match f.check v with
      | .ok () => checkMembers fields rest
      | .error e => .error e
    | none => checkMembers fields rest

/-- The check of the values of an array, in the order of the fields. -/
def checkItems : List Field → List Json → Except ShapeError Unit
  | f :: fields, v :: rest =>
    match f.check v with
    | .ok () => checkItems fields rest
    | .error e => .error e
  | _, _ => .ok ()

/-- The values of a record by the names of its fields. -/
def record (name : String) (fields : List Field) : Json → Except ShapeError (List (String × Json))
  | .object members => (checkMembers fields members).map fun _ => members
  | .array items =>
    match checkItems fields items with
    | .error e => .error e
    | .ok () =>
      if fields.length < items.length then .error (.tooLong items.length)
      else .ok ((fields.map (·.name)).zip items)
  | other => .error (wrongKind other ("struct " ++ name))

/-- The check of a record. -/
def checkRecord (name : String) (fields : List Field) (v : Json) : Except ShapeError Unit :=
  (record name fields v).map fun _ => ()

/-- A value that may be null. -/
def checkOptional (check : Json → Except ShapeError Unit) (v : Json) : Except ShapeError Unit :=
  if v.isNull then .ok () else check v

def checkString : Json → Except ShapeError Unit
  | .string _ => .ok ()
  | other => .error (wrongKind other "a string")

def checkArray : Json → Except ShapeError Unit
  | .array _ => .ok ()
  | other => .error (wrongKind other "a sequence")

/-- A field that takes any value. -/
def anyField (name : String) : Field := ⟨name, fun _ => .ok ()⟩

def optionalString (name : String) : Field := ⟨name, checkOptional checkString⟩

def optionalArray (name : String) : Field := ⟨name, checkOptional checkArray⟩

def optionalRecord (name recordName : String) (fields : List Field) : Field :=
  ⟨name, checkOptional (checkRecord recordName fields)⟩

/-- The elements of an array. -/
def items : Json → List Json
  | .array xs => xs
  | _ => []

/-- The members of a value that is a record of the given fields. -/
def recordMembers (fields : List Field) : Json → List (String × Json)
  | .object members => members
  | .array xs => (fields.map (·.name)).zip xs
  | _ => []

/-- The value of a field, unless it is null. -/
def field? (fields : List Field) (j : Json) (name : String) : Option Json :=
  (lookUp name (recordMembers fields j)).filter fun v => !v.isNull

/-- The text of a field. -/
def stringField? (fields : List Field) (j : Json) (name : String) : Option String :=
  (field? fields j name).bind asString?

theorem mem_of_lookUp {key : String} {members : List (String × Json)} {v : Json}
    (h : lookUp key members = some v) : (key, v) ∈ members := by
  induction members with
  | nil => simp [lookUp] at h
  | cons m rest ih =>
    obtain ⟨k, x⟩ := m
    simp only [lookUp] at h
    split at h
    · simp_all
    · exact List.mem_cons_of_mem _ (ih h)

theorem sizeOf_of_mem_recordMembers {fields : List Field} {j v : Json} {key : String}
    (h : (key, v) ∈ recordMembers fields j) : sizeOf v < sizeOf j := by
  cases j with
  | object members =>
    have := List.sizeOf_lt_of_mem (show (key, v) ∈ members from h)
    simp only [Prod.mk.sizeOf_spec] at this
    simp only [object.sizeOf_spec]
    omega
  | array xs =>
    have := List.sizeOf_lt_of_mem (List.of_mem_zip h).2
    simp only [array.sizeOf_spec]
    omega
  | _ => simp [recordMembers] at h

/-- A field is smaller than the record that holds it. -/
theorem sizeOf_field?_lt {fields : List Field} {j v : Json} {name : String}
    (h : field? fields j name = some v) : sizeOf v < sizeOf j := by
  obtain ⟨h, _⟩ := Option.filter_eq_some_iff.1 h
  exact sizeOf_of_mem_recordMembers (mem_of_lookUp h)

/-- The elements of an array are smaller than the array. -/
theorem sizeOf_items_lt (j : Json) : sizeOf (items j) < sizeOf j ∨ items j = [] := by
  cases j <;> simp [items]

end MessageCard.Json
