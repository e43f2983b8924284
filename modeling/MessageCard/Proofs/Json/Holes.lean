import MessageCard.Json.Integer
import MessageCard.Json.Shape

/-!
# Records with a hole

A record that is given but for the value of one field has a hole to be filled. What is read from its
other fields does not depend on what fills it, and the check of the record tells two fillings apart
only if the check of the field does. Holes of records within records make a way to a value deep
inside.
-/
namespace MessageCard.Json

/-- A record but for the value of a field: an object, where the field goes by its name, or an array,
where it goes by its place. -/
inductive RecordHole (fields : List Field) (name : String) where
  | object (before after : List (String × Json)) (first : name ∉ before.map (·.1))
  | array (before after : List Json) (front back : List String)
      (names : fields.map (·.name) = front ++ name :: back) (place : front.length = before.length)
      (first : name ∉ front)

/-- The check of the fields of a name does not tell two values apart. -/
def ChecksAlike (fields : List Field) (name : String) (v w : Json) : Prop :=
  ∀ f, fields.find? (·.name = name) = some f → f.check v = f.check w

theorem lookUp_append {name : String} {before : List (String × Json)}
    (hfirst : name ∉ before.map (·.1)) (after : List (String × Json)) (key : String) (v : Json) :
    lookUp key (before ++ (name, v) :: after) =
      if name = key then some v else lookUp key (before ++ after) := by
  induction before with
  | nil => rfl
  | cons m before ih =>
    obtain ⟨k, x⟩ := m
    rw [List.map_cons, List.mem_cons, not_or] at hfirst
    rw [List.cons_append, List.cons_append, lookUp, lookUp, ih hfirst.2]
    by_cases hk : k = key
    · have hne : name ≠ key := fun hkey => hfirst.1 (hkey.trans hk.symm)
      simp [hk, hne]
    · simp [hk]

theorem exists_append_of_lookUp {name : String} {members : List (String × Json)} {v : Json}
    (h : lookUp name members = some v) :
    ∃ before after, members = before ++ (name, v) :: after ∧ name ∉ before.map (·.1) := by
  induction members with
  | nil => cases h
  | cons m members ih =>
    obtain ⟨k, x⟩ := m
    rw [lookUp] at h
    split at h
    · next hk =>
      cases hk
      cases h
      exact ⟨[], members, rfl, List.not_mem_nil⟩
    · next hk =>
      obtain ⟨before, after, rfl, hfirst⟩ := ih h
      exact ⟨(k, x) :: before, after, rfl, by simpa [Ne.symm hk] using hfirst⟩

theorem checkMembers_append {fields : List Field} {name : String} {v w : Json}
    (h : ChecksAlike fields name v w) (before after : List (String × Json)) :
    checkMembers fields (before ++ (name, v) :: after) =
      checkMembers fields (before ++ (name, w) :: after) := by
  induction before with
  | nil =>
    rw [List.nil_append, List.nil_append, checkMembers, checkMembers]
    cases hf : fields.find? (·.name = name) with
    | none => rfl
    | some f => simp only [h f hf]
  | cons m before ih => rw [List.cons_append, List.cons_append, checkMembers, checkMembers, ih]

theorem checkItems_append {f : Field} {v w : Json} (h : f.check v = f.check w)
    {fs : List Field} {before : List Json} (hplace : fs.length = before.length) (gs : List Field)
    (after : List Json) : checkItems (fs ++ f :: gs) (before ++ v :: after) =
      checkItems (fs ++ f :: gs) (before ++ w :: after) := by
  induction fs generalizing before with
  | nil =>
    rw [List.length_eq_zero_iff.mp hplace.symm, List.nil_append, List.nil_append, List.nil_append,
      checkItems, checkItems, h]
  | cons g fs ih =>
    cases before with
    | nil => cases hplace
    | cons x before =>
      rw [List.cons_append, List.cons_append, List.cons_append, checkItems, checkItems,
        ih (Nat.succ.inj hplace)]

theorem checkRecord_object (recordName : String) (fields : List Field)
    (members : List (String × Json)) :
    checkRecord recordName fields (.object members) = checkMembers fields members := by
  rw [checkRecord, record]
  cases checkMembers fields members <;> rfl

namespace RecordHole

variable {fields : List Field} {name : String}

/-- The record with a value in its hole. -/
def fill : RecordHole fields name → Json → Json
  | .object before after _, v => .object (before ++ (name, v) :: after)
  | .array before after _ _ _ _ _, v => .array (before ++ v :: after)

variable (h : RecordHole fields name)

theorem isNull_fill (v : Json) : (h.fill v).isNull = false := by
  cases h <;> rfl

/-- The members of a record with a hole, by the names of its fields. -/
theorem exists_members : ∃ before after, name ∉ before.map (·.1) ∧
    ∀ v, recordMembers fields (h.fill v) = before ++ (name, v) :: after := by
  cases h with
  | object before after first => exact ⟨before, after, first, fun v => rfl⟩
  | array before after front back names place first =>
    refine ⟨front.zip before, back.zip after, fun hmem => ?_, fun v => ?_⟩
    · obtain ⟨m, hm, rfl⟩ := List.mem_map.mp hmem
      exact first (List.of_mem_zip hm).1
    · rw [fill, recordMembers, names, List.zip_append place, List.zip_cons_cons]

/-- Every record that has a field is one with a hole for it, filled. -/
theorem exists_fill {j v : Json} (hv : lookUp name (recordMembers fields j) = some v) :
    ∃ h : RecordHole fields name, h.fill v = j := by
  obtain ⟨before, after, hmembers, hfirst⟩ := exists_append_of_lookUp hv
  cases j with
  | object members => exact ⟨.object before after hfirst, congrArg Json.object hmembers.symm⟩
  | array items =>
    obtain ⟨front, back, values, rest, hplace, hnames, rfl, rfl, hzip⟩ :=
      List.zip_eq_append_iff.mp hmembers
    obtain ⟨back, rest, rfl, rfl, rfl⟩ := List.zip_eq_cons_iff.mp hzip.symm
    have hnot : name ∉ front := by
      rwa [List.map_fst_zip (Nat.le_of_eq hplace)] at hfirst
    exact ⟨.array values rest front back hnames hplace hnot, rfl⟩
  | _ => simp [recordMembers] at hmembers

/-! ## Reading -/

/-- A field apart from the hole has the same value whatever fills the hole. -/
theorem field?_fill_of_ne (v w : Json) {key : String} (hkey : name ≠ key) :
    field? fields (h.fill v) key = field? fields (h.fill w) key := by
  obtain ⟨before, after, hfirst, hmembers⟩ := h.exists_members
  simp only [field?, hmembers, lookUp_append hfirst, hkey, if_false]

theorem stringField?_fill_of_ne (v w : Json) {key : String} (hkey : name ≠ key) :
    stringField? fields (h.fill v) key = stringField? fields (h.fill w) key := by
  rw [stringField?, stringField?, h.field?_fill_of_ne v w hkey]

/-- What fills the hole is the value of its field, unless it is null. -/
theorem field?_fill (v : Json) :
    field? fields (h.fill v) name = (some v).filter fun v => !v.isNull := by
  obtain ⟨before, after, hfirst, hmembers⟩ := h.exists_members
  simp only [field?, hmembers, lookUp_append hfirst, if_true]

theorem field?_fill_of_not_null {v : Json} (hv : v.isNull = false) :
    field? fields (h.fill v) name = some v := by
  rw [field?_fill]
  simp [hv]

/-- The integer in the hole. -/
theorem toInteger?_fill (v : Json) :
    (field? fields (h.fill v) name).bind toInteger? = v.toInteger? := by
  rw [field?_fill]
  cases v with
  | null => rfl
  | _ => rfl

/-! ## Checking -/

theorem checkMembers_fill {v w : Json} (hcheck : ChecksAlike fields name v w) :
    checkMembers fields (recordMembers fields (h.fill v)) =
      checkMembers fields (recordMembers fields (h.fill w)) := by
  obtain ⟨before, after, -, hmembers⟩ := h.exists_members
  rw [hmembers, hmembers, checkMembers_append hcheck]

theorem checkRecord_fill {v w : Json} (hcheck : ChecksAlike fields name v w) (recordName : String) :
    checkRecord recordName fields (h.fill v) = checkRecord recordName fields (h.fill w) := by
  cases h with
  | object before after first =>
    rw [fill, fill, checkRecord_object, checkRecord_object, checkMembers_append hcheck]
  | array before after front back names place first =>
    obtain ⟨fs, rest, rfl, rfl, hrest⟩ := List.map_eq_append_iff.mp names
    obtain ⟨f, gs, rfl, rfl, rfl⟩ := List.map_eq_cons_iff.mp hrest
    have hf : (fs ++ f :: gs).find? (·.name = f.name) = some f := by
      have hnone : fs.find? (·.name = f.name) = none := by
        refine List.find?_eq_none.mpr fun g hg => ?_
        have hne : g.name ≠ f.name := fun he => first (he ▸ List.mem_map_of_mem hg)
        simpa using hne
      simp [List.find?_append, hnone]
    have hitems := checkItems_append (hcheck f hf) ((List.length_map _).symm.trans place) gs after
    simp only [checkRecord, record, fill, hitems, List.length_append, List.length_cons]
    split
    · rfl
    · split <;> rfl

end RecordHole

/-! ## Objects -/

/-- An object but for the value of a key. -/
structure ObjectHole (name : String) where
  before : List (String × Json)
  after : List (String × Json)
  first : name ∉ before.map (·.1)

namespace ObjectHole

variable {name : String} (h : ObjectHole name)

/-- The object with a value under its key. -/
def fill (v : Json) : Json := .object (h.before ++ (name, v) :: h.after)

/-- The object as a record, whatever its fields are. -/
def record (fields : List Field) : RecordHole fields name := .object h.before h.after h.first

/-- Every object that has a key is one with a hole for it, filled. -/
theorem exists_fill {j v : Json} (hv : j.get? name = some v) :
    ∃ h : ObjectHole name, h.fill v = j := by
  cases j with
  | object members =>
    obtain ⟨before, after, rfl, hfirst⟩ := exists_append_of_lookUp hv
    exact ⟨⟨before, after, hfirst⟩, rfl⟩
  | _ => cases hv

theorem field?_fill_of_ne (fields : List Field) (v w : Json) {key : String} (hkey : name ≠ key) :
    field? fields (h.fill v) key = field? fields (h.fill w) key :=
  (h.record fields).field?_fill_of_ne v w hkey

theorem field?_fill_of_not_null (fields : List Field) {v : Json} (hv : v.isNull = false) :
    field? fields (h.fill v) name = some v :=
  (h.record fields).field?_fill_of_not_null hv

theorem checkMembers_fill {fields : List Field} {v w : Json}
    (hcheck : ChecksAlike fields name v w) : checkMembers fields (recordMembers fields (h.fill v)) =
      checkMembers fields (recordMembers fields (h.fill w)) :=
  (h.record fields).checkMembers_fill hcheck

/-- A key apart from the hole has the same value whatever fills the hole. -/
theorem get?_fill_of_ne (v w : Json) {key : String} (hkey : name ≠ key) :
    (h.fill v).get? key = (h.fill w).get? key := by
  simp only [fill, get?, lookUp_append h.first, hkey, if_false]

end ObjectHole

/-! ## Ways through records -/

/-- A way to a value inside a record: the fields of each record on it, with the name of the one
taken. -/
abbrev RecordWay := List (List Field × String)

/-- Records along a way, each but for the field that is taken. -/
inductive WayHole : RecordWay → Type
  | here : WayHole []
  | through {fields : List Field} {name : String} {way : RecordWay}
      (outer : RecordHole fields name) (inner : WayHole way) : WayHole ((fields, name) :: way)

/-- The outermost record with a value at the end of the way. -/
def WayHole.fill {way : RecordWay} : WayHole way → Json → Json
  | .here, v => v
  | .through outer inner, v => outer.fill (inner.fill v)

theorem WayHole.isNull_fill {step : List Field × String} {way : RecordWay}
    (h : WayHole (step :: way)) (v : Json) : (h.fill v).isNull = false := by
  cases h with
  | through outer inner => exact outer.isNull_fill _

/-- The value at the end of a way from a value. -/
def valueAt? : RecordWay → Json → Option Json
  | [], v => some v
  | (fields, name) :: way, v => (lookUp name (recordMembers fields v)).bind (valueAt? way)

/-- Every value that a way leads from is one with a hole at its end, filled. -/
theorem WayHole.exists_fill {way : RecordWay} {j v : Json} (h : valueAt? way j = some v) :
    ∃ hole : WayHole way, hole.fill v = j := by
  induction way generalizing j with
  | nil =>
    cases h
    exact ⟨.here, rfl⟩
  | cons step way ih =>
    obtain ⟨next, hnext, hend⟩ := Option.bind_eq_some_iff.mp h
    obtain ⟨outer, rfl⟩ := RecordHole.exists_fill hnext
    obtain ⟨inner, rfl⟩ := ih hend
    exact ⟨.through outer inner, rfl⟩

/-- A way that leads through records that may be absent to a field that takes any value. -/
inductive IsLenient : RecordWay → Prop
  | any {fields : List Field} {name : String}
      (h : fields.find? (·.name = name) = some (anyField name)) : IsLenient [(fields, name)]
  | record {fields below : List Field} {name next recordName : String} {way : RecordWay}
      (h : fields.find? (·.name = name) = some (optionalRecord name recordName below))
      (hway : IsLenient ((below, next) :: way)) :
      IsLenient ((fields, name) :: (below, next) :: way)

/-- A record that may be absent checks alike what its own fields check alike. -/
theorem ChecksAlike.record {fields below : List Field} {name next recordName : String}
    (h : fields.find? (·.name = name) = some (optionalRecord name recordName below))
    (hole : RecordHole below next) {v w : Json} (hvw : ChecksAlike below next v w) :
    ChecksAlike fields name (hole.fill v) (hole.fill w) := by
  intro f hf
  cases h.symm.trans hf
  simp only [optionalRecord, checkOptional, hole.isNull_fill, Bool.false_eq_true, if_false,
    hole.checkRecord_fill hvw]

/-- All arrays are checked alike. -/
theorem ChecksAlike.array {fields : List Field} {name : String}
    (h : fields.find? (·.name = name) = some (optionalArray name)) (xs ys : List Json) :
    ChecksAlike fields name (.array xs) (.array ys) := by
  intro f hf
  cases h.symm.trans hf
  rfl

theorem ChecksAlike.any {fields : List Field} {name : String}
    (h : fields.find? (·.name = name) = some (anyField name)) (v w : Json) :
    ChecksAlike fields name v w := by
  intro f hf
  cases h.symm.trans hf
  rfl

theorem ChecksAlike.unknown {fields : List Field} {name : String}
    (h : fields.find? (·.name = name) = none) (v w : Json) : ChecksAlike fields name v w := by
  intro f hf
  cases h.symm.trans hf

/-- Nothing is checked about a value at the end of a lenient way. -/
theorem IsLenient.checksAlike {fields : List Field} {name : String} {way : RecordWay}
    (h : IsLenient ((fields, name) :: way)) (inner : WayHole way) (v w : Json) :
    ChecksAlike fields name (inner.fill v) (inner.fill w) := by
  induction way generalizing fields name with
  | nil =>
    cases h with
    | any h => exact .any h _ _
  | cons step way ih =>
    cases h with
    | record h hway =>
      cases inner with
      | through outer inner => exact .record h outer (ih hway inner)

end MessageCard.Json
