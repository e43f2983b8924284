import MessageCard.Proofs.Json.Holes

/-!
# Objects that agree on some names

Two lists of members agree on some names if they are the same but for members of other names. A
record whose fields are among these names is checked and read alike in both.
-/
namespace MessageCard.Json

/-- Whether two lists of members are the same but for members of other names. -/
def AgreeOn (names : List String) (ms ns : List (String × Json)) : Prop :=
  ms.filter (·.1 ∈ names) = ns.filter (·.1 ∈ names)

/-- A member of another name makes no difference. -/
theorem agreeOn_insert {names : List String} {name : String} (h : name ∉ names)
    (before after : List (String × Json)) (v : Json) :
    AgreeOn names (before ++ (name, v) :: after) (before ++ after) := by
  simp [AgreeOn, h]

/-- The members of some names are found among these members. -/
theorem lookUp_filter {names : List String} {name : String} (h : name ∈ names)
    (ms : List (String × Json)) : lookUp name (ms.filter (·.1 ∈ names)) = lookUp name ms := by
  induction ms with
  | nil => rfl
  | cons m rest ih =>
    obtain ⟨k, v⟩ := m
    by_cases hk : k = name
    · subst hk
      simp [h, lookUp]
    · by_cases hmem : k ∈ names
      · simp [hmem, lookUp, hk, ih]
      · simp [hmem, lookUp, hk, ih]

/-- Members of names that are no fields of a record are not checked. -/
theorem checkMembers_filter {names : List String} {fields : List Field}
    (h : fields.map (·.name) ⊆ names) (ms : List (String × Json)) :
    checkMembers fields (ms.filter (·.1 ∈ names)) = checkMembers fields ms := by
  induction ms with
  | nil => rfl
  | cons m rest ih =>
    obtain ⟨k, v⟩ := m
    by_cases hmem : k ∈ names
    · simp only [hmem, decide_true, List.filter_cons_of_pos, checkMembers, ih]
    · have hnone : fields.find? (·.name = k) = none := by
        refine List.find?_eq_none.mpr fun f hf => ?_
        have hne : f.name ≠ k := fun he => hmem (he ▸ h (List.mem_map_of_mem hf))
        simpa using hne
      simp only [hmem, decide_false, Bool.false_eq_true, not_false_eq_true, List.filter_cons_of_neg,
        checkMembers, hnone, ih]

namespace AgreeOn

variable {names : List String} {ms ns : List (String × Json)}

theorem lookUp_eq (h : AgreeOn names ms ns) {name : String} (hname : name ∈ names) :
    lookUp name ms = lookUp name ns := by
  rw [← lookUp_filter hname ms, h, lookUp_filter hname ns]

theorem get?_eq (h : AgreeOn names ms ns) {name : String} (hname : name ∈ names) :
    (object ms).get? name = (object ns).get? name := h.lookUp_eq hname

theorem checkMembers_eq (h : AgreeOn names ms ns) {fields : List Field}
    (hfields : fields.map (·.name) ⊆ names) : checkMembers fields ms = checkMembers fields ns := by
  rw [← checkMembers_filter hfields ms, h, checkMembers_filter hfields ns]

end AgreeOn

/-! ## Records -/

/-- Whether two values have the same fields as records. -/
def SameFields (fields : List Field) (v w : Json) : Prop :=
  ∀ name ∈ fields.map (·.name), field? fields v name = field? fields w name

theorem SameFields.field?_eq {fields : List Field} {v w : Json} (h : SameFields fields v w)
    {name : String} (hname : name ∈ fields.map (·.name)) :
    field? fields v name = field? fields w name := h name hname

theorem SameFields.stringField?_eq {fields : List Field} {v w : Json} (h : SameFields fields v w)
    {name : String} (hname : name ∈ fields.map (·.name)) :
    stringField? fields v name = stringField? fields w name := by
  rw [stringField?, stringField?, h.field?_eq hname]

theorem AgreeOn.sameFields {names : List String} {ms ns : List (String × Json)}
    (h : AgreeOn names ms ns) {fields : List Field} (hfields : fields.map (·.name) ⊆ names) :
    SameFields fields (object ms) (object ns) := by
  intro name hname
  simp only [field?, recordMembers, h.lookUp_eq (hfields hname)]

/-- Whether two values are no different as records. -/
structure SameRecord (fields : List Field) (v w : Json) : Prop where
  isNull_left : v.isNull = false
  isNull_right : w.isNull = false
  check : ∀ recordName, checkRecord recordName fields v = checkRecord recordName fields w
  same : SameFields fields v w

theorem AgreeOn.sameRecord {fields : List Field} {ms ns : List (String × Json)}
    (h : AgreeOn (fields.map (·.name)) ms ns) : SameRecord fields (object ms) (object ns) where
  isNull_left := rfl
  isNull_right := rfl
  check _ := by
    rw [checkRecord_object, checkRecord_object, h.checkMembers_eq (List.Subset.refl _)]
  same := h.sameFields (List.Subset.refl _)

/-- A record that may be absent does not tell records apart that are no different. -/
theorem ChecksAlike.sameRecord {fields below : List Field} {name recordName : String}
    (h : fields.find? (·.name = name) = some (optionalRecord name recordName below)) {v w : Json}
    (hvw : SameRecord below v w) : ChecksAlike fields name v w := by
  intro f hf
  cases h.symm.trans hf
  simp only [optionalRecord, checkOptional, hvw.isNull_left, hvw.isNull_right, hvw.check]

end MessageCard.Json
