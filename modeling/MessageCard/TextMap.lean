import MessageCard.Json

/-!
# Texts by key

A text map holds one text for each of its keys, in the order of the keys. So two maps with the same
entries are equal, in whatever order the entries were written.
-/
namespace MessageCard

/-- Whether keys ascend. -/
def AscendingKeys (entries : List (String × String)) : Prop :=
  entries.Pairwise fun a b => a.1 < b.1

/-- Texts by key. -/
structure TextMap where
  entries : List (String × String)
  ascending : AscendingKeys entries
  deriving DecidableEq

namespace TextMap

def empty : TextMap := ⟨[], .nil⟩

instance : Inhabited TextMap := ⟨empty⟩

/-- Entries with one more, which takes the place of an earlier one with its key. -/
def insertEntry (key text : String) : List (String × String) → List (String × String)
  | [] => [(key, text)]
  | (k, t) :: rest =>
    if key = k then (key, text) :: rest
    else if key < k then (key, text) :: (k, t) :: rest
    else (k, t) :: insertEntry key text rest

theorem mem_of_mem_insertEntry {key text : String} {entries : List (String × String)}
    {e : String × String} (h : e ∈ insertEntry key text entries) :
    e = (key, text) ∨ e ∈ entries := by
  induction entries with
  | nil => simpa [insertEntry] using h
  | cons p rest ih =>
    obtain ⟨k, t⟩ := p
    simp only [insertEntry] at h
    split at h
    · simp_all only [List.mem_cons]
      exact h.imp_right .inr
    · split at h
      · simpa using h
      · rcases List.mem_cons.1 h with h | h
        · exact .inr (h ▸ List.mem_cons_self)
        · exact (ih h).imp_right (List.mem_cons_of_mem _)

/-- A new entry keeps the keys in order. -/
theorem ascending_insertEntry (key text : String) {entries : List (String × String)}
    (h : AscendingKeys entries) : AscendingKeys (insertEntry key text entries) := by
  induction entries with
  | nil => simp [insertEntry, AscendingKeys]
  | cons p rest ih =>
    obtain ⟨k, t⟩ := p
    obtain ⟨first, later⟩ := List.pairwise_cons.1 h
    simp only [insertEntry]
    split
    · next same =>
      subst same
      exact List.pairwise_cons.2 ⟨first, later⟩
    · next other =>
      split
      · next below =>
        refine List.pairwise_cons.2 ⟨fun e he => ?_, h⟩
        rcases List.mem_cons.1 he with he | he
        · exact he ▸ below
        · exact String.lt_trans below (first e he)
      · next notBelow =>
        refine List.pairwise_cons.2 ⟨fun e he => ?_, ih later⟩
        rcases mem_of_mem_insertEntry he with he | he
        · have above : k < key := by grind [String.not_lt, String.le_antisymm]
          exact he ▸ above
        · exact first e he

/-- The map with a text for a key. -/
def insert (m : TextMap) (key text : String) : TextMap :=
  ⟨insertEntry key text m.entries, ascending_insertEntry key text m.ascending⟩

/-- The map of some pairs; of two pairs with one key the later counts. -/
def ofList (pairs : List (String × String)) : TextMap :=
  pairs.foldl (fun m p => m.insert p.1 p.2) empty

/-- The texts among the members of an object. -/
def ofMembers (members : List (String × Json)) : TextMap :=
  ofList (members.filterMap fun m => m.2.asString?.map (m.1, ·))

/-- The map as an object. -/
def toJson (m : TextMap) : Json := .object (m.entries.map fun e => (e.1, .string e.2))

end TextMap
end MessageCard
