/-!
# Tables

A table holds at most one value for each key, in the order in which the keys came. Writing to a key
that is present changes its value in place.
-/
namespace MessageCard

/-- Values by key. -/
structure Table (κ α : Type) where
  entries : List (κ × α)

namespace Table

variable {κ α : Type}

def empty : Table κ α := ⟨[]⟩

instance : Inhabited (Table κ α) := ⟨empty⟩

def size (t : Table κ α) : Nat := t.entries.length

def keys (t : Table κ α) : List κ := t.entries.map (·.1)

variable [DecidableEq κ]

/-- The value of the first entry with a key. -/
def findIn (key : κ) : List (κ × α) → Option α
  | [] => none
  | (k, v) :: rest => if k = key then some v else findIn key rest

/-- The value of a key. -/
def find? (t : Table κ α) (key : κ) : Option α := findIn key t.entries

def contains (t : Table κ α) (key : κ) : Bool := (t.find? key).isSome

/-- Entries with the value of a key replaced, or added at the end. -/
def insertIn (key : κ) (value : α) : List (κ × α) → List (κ × α)
  | [] => [(key, value)]
  | (k, v) :: rest => if k = key then (k, value) :: rest else (k, v) :: insertIn key value rest

/-- The table with a value for a key. -/
def insert (t : Table κ α) (key : κ) (value : α) : Table κ α := ⟨insertIn key value t.entries⟩

/-- The table without a key. -/
def erase (t : Table κ α) (key : κ) : Table κ α := ⟨t.entries.filter (·.1 ≠ key)⟩

/-- The entries whose keys satisfy a condition. -/
def filterKeys (t : Table κ α) (keep : κ → Bool) : Table κ α := ⟨t.entries.filter (keep ·.1)⟩

/-- The table of a list of pairs; of two pairs with one key the later counts. -/
def ofList (pairs : List (κ × α)) : Table κ α := pairs.foldl (fun t p => t.insert p.1 p.2) empty

@[simp] theorem find?_empty (key : κ) : (empty : Table κ α).find? key = none := rfl

theorem mem_of_findIn {key : κ} {value : α} {entries : List (κ × α)}
    (h : findIn key entries = some value) : (key, value) ∈ entries := by
  induction entries with
  | nil => cases h
  | cons e rest ih =>
    obtain ⟨k, v⟩ := e
    rw [findIn] at h
    split at h
    case isTrue hkey =>
      cases h
      exact hkey ▸ List.mem_cons_self
    case isFalse => exact List.mem_cons_of_mem _ (ih h)

/-- A value that is found is that of an entry. -/
theorem mem_of_find? {t : Table κ α} {key : κ} {value : α} (h : t.find? key = some value) :
    (key, value) ∈ t.entries :=
  mem_of_findIn h

theorem findIn_insertIn (entries : List (κ × α)) (key other : κ) (value : α) :
    findIn other (insertIn key value entries) =
      if key = other then some value else findIn other entries := by
  induction entries with
  | nil => rfl
  | cons e rest ih =>
    simp only [insertIn]
    split <;> simp only [findIn] <;> grind

@[simp] theorem find?_insert (t : Table κ α) (key other : κ) (value : α) :
    (t.insert key value).find? other = if key = other then some value else t.find? other :=
  findIn_insertIn t.entries key other value

theorem insertIn_of_findIn {key : κ} {value : α} {entries : List (κ × α)}
    (h : findIn key entries = some value) : insertIn key value entries = entries := by
  induction entries with
  | nil => cases h
  | cons e rest ih =>
    obtain ⟨k, v⟩ := e
    rw [findIn] at h
    rw [insertIn]
    split at h
    case isTrue hkey =>
      cases h
      rw [if_pos hkey]
    case isFalse hkey => rw [if_neg hkey, ih h]

/-- Writing what is there already changes nothing. -/
theorem insert_of_find? {t : Table κ α} {key : κ} {value : α} (h : t.find? key = some value) :
    t.insert key value = t :=
  congrArg Table.mk (insertIn_of_findIn h)

theorem findIn_filter_ne (entries : List (κ × α)) (key other : κ) :
    findIn other (entries.filter (·.1 ≠ key)) =
      if key = other then none else findIn other entries := by
  induction entries with
  | nil => simp [findIn]
  | cons e rest ih =>
    simp only [List.filter_cons]
    split <;> simp only [findIn] <;> grind

@[simp] theorem find?_erase (t : Table κ α) (key other : κ) :
    (t.erase key).find? other = if key = other then none else t.find? other :=
  findIn_filter_ne t.entries key other

theorem findIn_filter (entries : List (κ × α)) (keep : κ → Bool) (key : κ) :
    findIn key (entries.filter (keep ·.1)) = if keep key then findIn key entries else none := by
  induction entries with
  | nil => simp [findIn]
  | cons e rest ih =>
    simp only [List.filter_cons]
    split <;> simp only [findIn] <;> grind

@[simp] theorem find?_filterKeys (t : Table κ α) (keep : κ → Bool) (key : κ) :
    (t.filterKeys keep).find? key = if keep key then t.find? key else none :=
  findIn_filter t.entries keep key

theorem mem_insertIn {key : κ} {value : α} {es : List (κ × α)} {e : κ × α}
    (h : e ∈ insertIn key value es) : e = (key, value) ∨ e ∈ es := by
  induction es with
  | nil => exact .inl (List.mem_singleton.mp h)
  | cons d es ih =>
    obtain ⟨k, v⟩ := d
    rw [insertIn] at h
    split at h
    case isTrue hkey =>
      refine (List.mem_cons.mp h).imp (fun he => hkey ▸ he) fun hmem => List.mem_cons_of_mem _ hmem
    case isFalse =>
      rcases List.mem_cons.mp h with rfl | h
      · exact .inr List.mem_cons_self
      · exact (ih h).imp_right (List.mem_cons_of_mem _)

/-- An entry after a write is what was written or was there before. -/
theorem mem_insert {t : Table κ α} {key : κ} {value : α} {e : κ × α}
    (h : e ∈ (t.insert key value).entries) : e = (key, value) ∨ e ∈ t.entries :=
  mem_insertIn h

/-- A write leaves the keys as they are, with a new one at the end. -/
theorem keys_insert (t : Table κ α) (key : κ) (value : α) :
    (t.insert key value).keys = if key ∈ t.keys then t.keys else t.keys ++ [key] := by
  have hentries : ∀ es : List (κ × α), (insertIn key value es).map (·.1) =
      if key ∈ es.map (·.1) then es.map (·.1) else es.map (·.1) ++ [key] := by
    intro es
    induction es with
    | nil => rfl
    | cons e rest ih =>
      rw [insertIn]
      split
      case isTrue hkey => simp [hkey]
      case isFalse hkey =>
        have hne : key ≠ e.1 := Ne.symm hkey
        rw [List.map_cons, ih, List.map_cons]
        simp only [List.mem_cons, hne, false_or]
        split <;> rfl
  exact hentries t.entries

theorem nodup_keys_insert {t : Table κ α} (h : t.keys.Nodup) (key : κ) (value : α) :
    (t.insert key value).keys.Nodup := by
  rw [keys_insert]
  split
  case isTrue => exact h
  case isFalse hkey =>
    refine List.nodup_append.mpr ⟨h, List.pairwise_singleton _ _, fun a ha b hb => ?_⟩
    rintro rfl
    exact hkey (List.mem_singleton.mp hb ▸ ha)

theorem nodup_keys_ofList (pairs : List (κ × α)) : (ofList pairs).keys.Nodup := by
  have hfold : ∀ (t : Table κ α), t.keys.Nodup →
      (pairs.foldl (fun t p => t.insert p.1 p.2) t).keys.Nodup := by
    induction pairs with
    | nil => exact fun t h => h
    | cons p rest ih => exact fun t h => ih _ (nodup_keys_insert h p.1 p.2)
  exact hfold empty List.nodup_nil

theorem isSome_find?_iff {t : Table κ α} {key : κ} : (t.find? key).isSome ↔ key ∈ t.keys := by
  obtain ⟨entries⟩ := t
  show (findIn key entries).isSome ↔ key ∈ entries.map (·.1)
  induction entries with
  | nil => simp only [findIn, Option.isSome_none, Bool.false_eq_true, List.map_nil, List.not_mem_nil]
  | cons e rest ih =>
    rw [findIn]
    split
    · next h => simp [h]
    · next h => simp [ih, Ne.symm h]

/-- Where no key comes twice each entry is the one of its key. -/
theorem find?_eq_some_iff {t : Table κ α} (h : t.keys.Nodup) {key : κ} {value : α} :
    t.find? key = some value ↔ (key, value) ∈ t.entries := by
  refine ⟨mem_of_find?, fun hmem => ?_⟩
  have hentries : ∀ es : List (κ × α), (es.map (·.1)).Nodup → (key, value) ∈ es →
      findIn key es = some value := by
    intro es hes hmem
    induction es with
    | nil => cases hmem
    | cons e rest ih =>
      obtain ⟨hfirst, hrest⟩ := List.nodup_cons.mp hes
      rw [findIn]
      rcases List.mem_cons.mp hmem with rfl | hmem
      · exact if_pos rfl
      · have hne : e.1 ≠ key := fun he => hfirst (List.mem_map.mpr ⟨_, hmem, he.symm⟩)
        rw [if_neg hne, ih hrest hmem]
  exact hentries t.entries h hmem

/-! ## Parts of a table -/

theorem filter_insertIn_of_eq_false (keep : κ → Bool) {key : κ} (h : keep key = false) (value : α)
    (entries : List (κ × α)) :
    (insertIn key value entries).filter (keep ·.1) = entries.filter (keep ·.1) := by
  induction entries with
  | nil => simp [insertIn, h]
  | cons e rest ih =>
    rw [insertIn]
    split
    case isTrue hkey => simp [hkey, h]
    case isFalse => simp only [List.filter_cons, ih]

/-- A part of a table does not see a write outside of it. -/
theorem filterKeys_insert_of_eq_false (keep : κ → Bool) {key : κ} (h : keep key = false)
    (t : Table κ α) (value : α) : (t.insert key value).filterKeys keep = t.filterKeys keep :=
  congrArg Table.mk (filter_insertIn_of_eq_false keep h value t.entries)

omit [DecidableEq κ] in
/-- A part of a table does not see what is left out elsewhere. -/
theorem filterKeys_filterKeys_of_imp (keep other : κ → Bool)
    (h : ∀ key, keep key = true → other key = true) (t : Table κ α) :
    (t.filterKeys other).filterKeys keep = t.filterKeys keep := by
  refine congrArg Table.mk ?_
  rw [filterKeys, List.filter_filter]
  refine List.filter_congr fun e _ => ?_
  cases hkeep : keep e.1 with
  | false => rfl
  | true => exact h e.1 hkeep

theorem filterKeys_erase_of_eq_false (keep : κ → Bool) {key : κ} (h : keep key = false)
    (t : Table κ α) : (t.erase key).filterKeys keep = t.filterKeys keep := by
  refine filterKeys_filterKeys_of_imp keep (fun k => decide (k ≠ key)) (fun k hk => ?_) t
  exact decide_eq_true fun he => Bool.false_ne_true (h.symm.trans (he ▸ hk))

end Table
end MessageCard
