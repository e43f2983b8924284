import Mathlib.Data.List.Nodup
import MessageCard.Catalog.Local
import MessageCard.Proofs.Json.ReadBack

/-!
# What a local catalog serves

An entry holds any texts whatsoever, and some of them are JSON themselves. It is served as an object
of strings, with one object of strings for the color variables, so the texts are never looked into
on the way, and every entry is read back as it is held. A page of entries is read back likewise, and
the one with all entries of a kind has each of them once, since a catalog holds every entry under
its own key.
-/
namespace MessageCard

/-! ## Texts by key -/

namespace TextMap

/-- An entry whose key comes last goes to the end. -/
theorem insertEntry_of_forall_lt {key : String} {entries : List (String × String)}
    (h : ∀ e ∈ entries, e.1 < key) (text : String) :
    insertEntry key text entries = entries ++ [(key, text)] := by
  induction entries with
  | nil => rfl
  | cons e rest ih =>
    obtain ⟨he, hrest⟩ := List.forall_mem_cons.mp h
    have hne : key ≠ e.1 := fun heq => String.lt_irrefl key (heq ▸ he)
    have hnot : ¬key < e.1 := fun hlt => String.lt_irrefl key (String.lt_trans hlt he)
    rw [insertEntry, if_neg hne, if_neg hnot, ih hrest, List.cons_append]

theorem entries_foldl_insert {pairs : List (String × String)} :
    ∀ m : TextMap, AscendingKeys (m.entries ++ pairs) →
      (pairs.foldl (fun m p => m.insert p.1 p.2) m).entries = m.entries ++ pairs := by
  induction pairs with
  | nil => exact fun m _ => (List.append_nil m.entries).symm
  | cons p rest ih =>
    intro m h
    have hlast : ∀ e ∈ m.entries, e.1 < p.1 :=
      fun e he => (List.pairwise_append.mp h).2.2 e he p List.mem_cons_self
    have hinsert : (m.insert p.1 p.2).entries = m.entries ++ [p] :=
      insertEntry_of_forall_lt hlast p.2
    rw [List.append_cons] at h
    rw [List.foldl_cons, ih (m.insert p.1 p.2) (hinsert ▸ h), hinsert, ← List.append_cons]

/-- The entries of a map make it up. -/
theorem ofList_entries (m : TextMap) : ofList m.entries = m := by
  have hentries : (ofList m.entries).entries = m.entries := entries_foldl_insert empty m.ascending
  obtain ⟨entries, hascending⟩ := m
  exact TextMap.mk.injEq .. ▸ hentries

/-- A map is read back from the object that it is written as. -/
theorem ofMembers_members (m : TextMap) :
    ofMembers (m.entries.map fun e => (e.1, .string e.2)) = m := by
  rw [ofMembers, List.filterMap_map]
  exact (congrArg ofList List.filterMap_some).trans m.ofList_entries

theorem isTextual_toJson {depth : Nat} (m : TextMap) : Json.IsTextual (depth + 1) m.toJson := by
  refine .object (List.pairwise_map.mpr m.ascending) fun x hx => ?_
  obtain ⟨e, -, rfl⟩ := List.mem_map.mp hx
  exact .string e.2

end TextMap

/-! ## Entries -/

namespace TemplateEntry

/-- The members of an entry in the order of their keys. -/
theorem toJson_eq (e : TemplateEntry) :
    e.toJson = .object [("color_variables", e.colors.toJson), ("data_template", .string e.data),
      ("key", .string e.key), ("ui_template", .string e.ui)] := by
  simp +decide only [toJson, Json.ofMembers, List.foldl_cons, List.foldl_nil, Json.insertMember,
    if_true, if_false]

theorem isTextual_toJson {depth : Nat} (e : TemplateEntry) :
    Json.IsTextual (depth + 2) e.toJson := by
  have hkeys : ["color_variables", "data_template", "key", "ui_template"].Pairwise (· < ·) := by
    decide
  rw [toJson_eq]
  refine .object ((List.pairwise_map (f := Prod.fst)).mp hkeys) ?_
  simp only [List.forall_mem_cons]
  exact ⟨e.colors.isTextual_toJson, .string _, .string _, .string _, fun _ h => nomatch h⟩

theorem ofJson_toJson (e : TemplateEntry) : ofJson e.toJson = .ok e := by
  rw [toJson_eq]
  have hcolors : colorsOf e.key (some e.colors.toJson) = .ok e.colors :=
    congrArg Except.ok e.colors.ofMembers_members
  simp +decide [ofJson, Json.get?, Json.lookUp, Json.asString?, textOf?, hcolors, Except.map]

/-- Every entry is read back from its text. -/
theorem ofText_toText (e : TemplateEntry) : ofText e.toText = .ok e := by
  rw [ofText, toText, Json.ofText_toText e.isTextual_toJson]
  exact e.ofJson_toJson

end TemplateEntry

/-! ## Pages -/

namespace CatalogPage

theorem toJson_eq (p : CatalogPage) :
    p.toJson = .object [("has_more", .bool p.hasMore),
      ("templates", .array (p.entries.map TemplateEntry.toJson)),
      ("token", .ofString? p.token)] := by
  simp +decide only [toJson, Json.ofMembers, List.foldl_cons, List.foldl_nil, Json.insertMember,
    if_true, if_false]

theorem isTextual_toJson {depth : Nat} (p : CatalogPage) : Json.IsTextual (depth + 4) p.toJson := by
  have hkeys : ["has_more", "templates", "token"].Pairwise (· < ·) := by decide
  rw [toJson_eq]
  refine .object ((List.pairwise_map (f := Prod.fst)).mp hkeys) ?_
  simp only [List.forall_mem_cons]
  refine ⟨.bool _, .array fun x hx => ?_, ?_, fun _ h => nomatch h⟩
  · obtain ⟨e, -, rfl⟩ := List.mem_map.mp hx
    exact e.isTextual_toJson
  · cases p.token with
    | none => exact .null
    | some token => exact .string token

theorem mapM_ofJson_toJson (entries : List TemplateEntry) :
    (entries.map TemplateEntry.toJson).mapM TemplateEntry.ofJson = .ok entries := by
  induction entries with
  | nil => rfl
  | cons e rest ih =>
    rw [List.map_cons, List.mapM_cons, TemplateEntry.ofJson_toJson, ih]
    rfl

theorem tokenOf?_ofString? (token : Option String) :
    (some (Json.ofString? token)).bind tokenOf? = token := by
  cases token <;> rfl

theorem ofJson_toJson (p : CatalogPage) : ofJson p.toJson = .ok p := by
  rw [toJson_eq]
  have hentries : entriesOf (some (.array (p.entries.map TemplateEntry.toJson))) = .ok p.entries :=
    mapM_ofJson_toJson p.entries
  have htoken := tokenOf?_ofString? p.token
  simp +decide [ofJson, Json.get?, Json.lookUp, hentries, htoken, Except.map]

/-- Every page is read back from its text. -/
theorem ofText_toText (p : CatalogPage) : ofText p.toText = .ok p := by
  rw [ofText, toText, Json.ofText_toText p.isTextual_toJson]
  exact p.ofJson_toJson

end CatalogPage

/-! ## The catalog -/

namespace LocalCatalog

/-- A catalog that came about by entries and tokens. -/
inductive IsMade : LocalCatalog → Prop
  | empty : IsMade .empty
  | insert {c : LocalCatalog} (made : IsMade c) (kind : TemplateKind) (e : TemplateEntry) :
      IsMade (c.insert kind e)
  | setToken {c : LocalCatalog} (made : IsMade c) (token : String) : IsMade (c.setToken token)

/-- What holds of the entries of every catalog. -/
structure IsKeyed (c : LocalCatalog) : Prop where
  nodup : c.entries.keys.Nodup
  ownKey : ∀ x ∈ c.entries.entries, x.1.2 = x.2.key

theorem isKeyed_empty : IsKeyed .empty where
  nodup := .nil
  ownKey _ hx := nomatch hx

theorem IsKeyed.insert {c : LocalCatalog} (h : c.IsKeyed) (kind : TemplateKind)
    (e : TemplateEntry) : (c.insert kind e).IsKeyed where
  nodup := Table.nodup_keys_insert h.nodup _ e
  ownKey x hx := by
    rcases Table.mem_insert hx with rfl | hx
    · rfl
    · exact h.ownKey x hx

theorem IsMade.isKeyed {c : LocalCatalog} (h : c.IsMade) : c.IsKeyed := by
  induction h with
  | empty => exact isKeyed_empty
  | insert _ kind e ih => exact ih.insert kind e
  | setToken _ token ih => exact ⟨ih.nodup, ih.ownKey⟩

theorem IsKeyed.key_eq {c : LocalCatalog} (h : c.IsKeyed) {kind : TemplateKind}
    {x : (TemplateKind × String) × TemplateEntry}
    (hx : x ∈ c.entries.entries.filter (·.1.1 = kind)) : x.1 = (kind, x.2.key) := by
  obtain ⟨hx, hkind⟩ := List.mem_filter.mp hx
  exact Prod.ext (of_decide_eq_true hkind) (h.ownKey x hx)

/-- The list of a kind has the entries that the catalog holds for it. -/
theorem IsKeyed.mem_list {c : LocalCatalog} (h : c.IsKeyed) (kind : TemplateKind)
    (e : TemplateEntry) : e ∈ c.list kind ↔ c.entries.find? (kind, e.key) = some e := by
  rw [list, List.mem_mergeSort, List.mem_map, Table.find?_eq_some_iff h.nodup]
  constructor
  · rintro ⟨x, hx, rfl⟩
    rw [← h.key_eq hx]
    exact List.mem_of_mem_filter hx
  · exact fun he => ⟨_, List.mem_filter.mpr ⟨he, decide_eq_true rfl⟩, rfl⟩

/-- No two entries of a list have one key. -/
theorem IsKeyed.nodup_keys_list {c : LocalCatalog} (h : c.IsKeyed) (kind : TemplateKind) :
    ((c.list kind).map (·.key)).Nodup := by
  have hpairs : ((c.entries.entries.filter (·.1.1 = kind)).map (·.1)).Nodup :=
    h.nodup.sublist (List.filter_sublist.map _)
  have hperm := (List.mergeSort_perm ((c.entries.entries.filter (·.1.1 = kind)).map (·.2))
    fun a b => decide (a.key ≤ b.key)).map (·.key)
  rw [list, hperm.nodup_iff, List.map_map]
  refine List.Nodup.of_map (Prod.mk kind) ?_
  rw [List.map_congr_left fun x hx => h.key_eq hx] at hpairs
  rw [List.map_map]
  exact hpairs

theorem isKnownTo_eq_false {c : LocalCatalog} {since : Option String}
    (h : ∀ old now, since = some old → c.token = some now → SyncToken.order old now = .lt) :
    c.isKnownTo since = false := by
  unfold isKnownTo
  split
  case h_1 old now htoken => exact decide_eq_false (not_not_intro (h old now rfl htoken))
  case h_2 => rfl

/-- A catalog serves every entry under its key so that it is read back, right after it was put
there as well as later. A page for someone who is not up to date is read back as well; it has the
catalog's token and each entry of the kind once. -/
theorem serves_what_it_holds {c : LocalCatalog} (hc : c.IsMade) (kind : TemplateKind) :
    (∀ e, readEntry (service.entry kind e.key (c.insert kind e)).1 = .ok e) ∧
    (∀ key e, c.entries.find? (kind, key) = some e →
      readEntry (service.entry kind key c).1 = .ok e) ∧
    ∀ since : Option String,
      (∀ old now, since = some old → c.token = some now → SyncToken.order old now = .lt) →
      ∃ p, readPage (service.page kind since c).1 = .ok p ∧
        p.token = c.token ∧ p.hasMore = false ∧ (p.entries.map (·.key)).Nodup ∧
        ∀ e, e ∈ p.entries ↔ c.entries.find? (kind, e.key) = some e := by
  have hentry : ∀ (c : LocalCatalog) (key : String) (e : TemplateEntry),
      c.entries.find? (kind, key) = some e → readEntry (service.entry kind key c).1 = .ok e := by
    intro c key e he
    have hanswer : c.answer kind key = .ok e.toText := by
      simp only [answer, he]
    change readEntry (c.answer kind key) = _
    rw [hanswer, readEntry, e.ofText_toText]
    rfl
  have hinsert : ∀ e, (c.insert kind e).entries.find? (kind, e.key) = some e :=
    fun e => (Table.find?_insert ..).trans (if_pos rfl)
  refine ⟨fun e => hentry _ _ e (hinsert e), hentry c, fun since hsince => ?_⟩
  have hpage : c.page kind since = ⟨c.list kind, c.token, false⟩ := by
    rw [page, isKnownTo_eq_false hsince]
    rfl
  refine ⟨c.page kind since, ?_, ?_⟩
  · rw [service, readPage, CatalogPage.ofText_toText]
    rfl
  · rw [hpage]
    exact ⟨rfl, rfl, hc.isKeyed.nodup_keys_list kind, hc.isKeyed.mem_list kind⟩

/-- Quotes, backslashes and control characters, for someone with an older token. -/
theorem serves_quotes_and_controls :
    ∃ (c : LocalCatalog) (e : TemplateEntry), c.IsMade ∧ e.ui = "\"\\\n" ∧ c.token = some "3" ∧
      SyncToken.order "2" "3" = .lt ∧ readEntry (service.entry .message "k" c).1 = .ok e ∧
      ∃ p, readPage (service.page .message (some "2") c).1 = .ok p ∧ e ∈ p.entries := by
  let e : TemplateEntry := ⟨"k", "\"\\\n", "\x00", .ofList [("bg", "\"#fff\"")]⟩
  have hmade : ((empty.insert .message e).setToken "3").IsMade := .setToken (.insert .empty _ e) "3"
  have hfind : ((empty.insert .message e).setToken "3").entries.find? (.message, "k") = some e :=
    rfl
  have horder : SyncToken.order "2" "3" = .lt := by decide
  obtain ⟨-, hentry, hpage⟩ := serves_what_it_holds hmade .message
  obtain ⟨p, hread, -, -, -, hmem⟩ := hpage (some "2") fun _ _ hold hnow => by
    cases hold
    cases hnow
    exact horder
  exact ⟨_, e, hmade, rfl, rfl, horder, hentry _ _ hfind, p, hread, (hmem e).mpr hfind⟩

end LocalCatalog
end MessageCard
