import Mathlib.Data.List.DropRight
import MessageCard.Proofs.Text.Words
import MessageCard.Theme

/-!
# Choosing colors

A written pair has a first color, which stands before its first comma, and a second one, which
stands after it. Which of the two a screen shows is up to the mode, and the second one gives way to
the first where it is empty. All color variables are read in this way if every one of them has a
first color, in whatever order they come, and none is read if one has not. Themes choose their
colors by the same rule.
-/
namespace MessageCard

/-! ## Trimming -/

section

variable {s : List Char} {c : Char}

theorem trim_sublist (s : List Char) : (trim s).Sublist s :=
  (List.rdropWhile_prefix isBlank _).sublist.trans (List.dropWhile_sublist _)

/-- A trimmed text does not start with white space. -/
theorem isBlank_of_mem_head?_trim (h : c ∈ (trim s).head?) : isBlank c = false := by
  obtain ⟨ending, hending⟩ := List.rdropWhile_prefix isBlank (trimStart s)
  have hhead : ((trimStart s).rdropWhile isBlank).head? = some c := h
  have hstart : (trimStart s).head? = some c := by
    rw [← hending, List.head?_append, hhead, Option.some_or]
  have hnot := List.head?_dropWhile_not isBlank s
  rw [← trimStart, hstart] at hnot
  exact hnot

/-- A trimmed text does not end in white space. -/
theorem isBlank_of_mem_getLast?_trim (h : c ∈ (trim s).getLast?) : isBlank c = false := by
  obtain ⟨hne, rfl⟩ := List.mem_getLast?_eq_getLast h
  exact Bool.eq_false_iff.mpr (List.rdropWhile_last_not isBlank (trimStart s) hne)

end

/-! ## The colors of a written pair -/

namespace ColorPair

/-- The first color of a written pair. -/
def firstColor (value : String) : List Char := trim (value.toList.takeWhile (· ≠ ','))

/-- What follows the first comma of a text. -/
def afterComma (text : List Char) : List Char := (text.dropWhile (· ≠ ',')).drop 1

/-- The second color of a written pair. It is empty where there is no comma. -/
def secondColor (value : String) : List Char :=
  trim ((afterComma value.toList).takeWhile (· ≠ ','))

/-- The second color of a written pair, or the first one if there is no second. -/
def lastColor (value : String) : List Char :=
  if secondColor value = [] then firstColor value else secondColor value

/-- The color of a written pair that a screen shows. -/
def chosen (mode : ColorMode) (a : Appearance) (value : String) : List Char :=
  match mode, a with
  | .light, _ => firstColor value
  | .dark, _ => lastColor value
  | .adaptive, .light => firstColor value
  | .adaptive, .dark => lastColor value

/-- The two colors that are chosen from a written pair. -/
def choice (mode : ColorMode) (value : String) : ColorPair :=
  ⟨.ofList (chosen mode .light value), .ofList (chosen mode .dark value)⟩

@[simp] theorem on_choice (mode : ColorMode) (value : String) (a : Appearance) :
    (choice mode value).on a = .ofList (chosen mode a value) := by
  cases a <;> rfl

theorem headD_parts (value : String) : (parts value).headD [] = firstColor value := by
  rw [parts, List.headD_eq_head?_getD, List.head?_map, head?_splitWhen, firstColor]
  simp

theorem afterComma_of_not_mem {text : List Char} (h : ',' ∉ text) : afterComma text = [] := by
  have hdrop : text.dropWhile (· ≠ ',') = [] := by
    rw [List.dropWhile_eq_nil_iff]
    exact fun c hc => decide_eq_true fun hcomma => h (hcomma ▸ hc)
  rw [afterComma, hdrop, List.drop_nil]

/-- A text with a comma is what stands before the first one, the comma, and what follows it. -/
theorem eq_append_afterComma {text : List Char} (h : ',' ∈ text) :
    text = text.takeWhile (· ≠ ',') ++ ',' :: afterComma text := by
  induction text with
  | nil => cases h
  | cons c rest ih =>
    by_cases hc : c = ','
    · simp [afterComma, hc]
    · have hrest : ',' ∈ rest := (List.mem_cons.mp h).resolve_left (Ne.symm hc)
      have hafter : afterComma (c :: rest) = afterComma rest := by simp [afterComma, hc]
      rw [hafter, List.takeWhile_cons_of_pos (by simpa using hc), List.cons_append, ← ih hrest]

theorem ne_comma_of_mem_takeWhile {text : List Char} {c : Char}
    (h : c ∈ text.takeWhile (· ≠ ',')) : c ≠ ',' := by
  simpa using List.mem_takeWhile_imp h

theorem getElem?_one_parts (value : String) :
    (parts value)[1]?.getD [] = secondColor value := by
  rw [parts, List.getElem?_map, secondColor]
  by_cases h : ',' ∈ value.toList
  · have hbefore : ∀ c ∈ value.toList.takeWhile (· ≠ ','), decide (c = ',') = false :=
      fun c hc => decide_eq_false (ne_comma_of_mem_takeWhile hc)
    conv_lhs => rw [eq_append_afterComma h]
    rw [splitWhen_append_break (decide_eq_true rfl), splitWhen_of_forall_not hbefore,
      List.singleton_append, List.getElem?_cons_succ, ← List.head?_eq_getElem?, head?_splitWhen]
    simp
  · have hnone : ∀ c ∈ value.toList, decide (c = ',') = false :=
      fun c hc => decide_eq_false fun hcomma => h (hcomma ▸ hc)
    rw [afterComma_of_not_mem h, splitWhen_of_forall_not hnone]
    rfl

/-- A written pair stands for the colors that are chosen from it, if it has a first color. -/
theorem read?_eq (mode : ColorMode) (value : String) :
    read? mode value = if firstColor value = [] then none else some (choice mode value) := by
  have hlast : lastColor value = if (parts value)[1]?.getD [] = [] then firstColor value
      else (parts value)[1]?.getD [] := by
    rw [lastColor, getElem?_one_parts]
  rw [read?]
  dsimp only
  rw [headD_parts]
  cases mode with
  | light => rfl
  | dark | adaptive =>
    simp only [choice, chosen, hlast]
    rcases (parts value)[1]? with _ | _ | ⟨c, cs⟩ <;> rfl

/-- What stands in a text from its start or a comma to the next comma or the end. -/
structure IsBetweenCommas (text part : List Char) : Prop where
  comma_free : ',' ∉ part
  bounded : ∃ before after, text = before ++ (part ++ after) ∧
    (∀ c ∈ before.getLast?, c = ',') ∧ ∀ c ∈ after.head?, c = ','

/-- What stands before the first comma ends at a comma or at the end. -/
theorem isBetweenCommas_takeWhile {text before rest : List Char} (h : text = before ++ rest)
    (hbefore : ∀ c ∈ before.getLast?, c = ',') :
    IsBetweenCommas text (rest.takeWhile (· ≠ ',')) where
  comma_free := fun h => ne_comma_of_mem_takeWhile h rfl
  bounded := by
    refine ⟨before, rest.dropWhile (· ≠ ','), ?_, hbefore, fun c hc => ?_⟩
    · rw [List.takeWhile_append_dropWhile, h]
    · have hnot := List.head?_dropWhile_not (· ≠ ',') rest
      rw [Option.mem_def.mp hc] at hnot
      exact of_not_not (of_decide_eq_false hnot)

/-- A color as it is taken from a written pair: a part between commas, without the white space
around it, and not empty. -/
structure IsColorOf (value : String) (color : List Char) : Prop where
  ne_nil : color ≠ []
  not_blank_first : ∀ c ∈ color.head?, isBlank c = false
  not_blank_last : ∀ c ∈ color.getLast?, isBlank c = false
  comma_free : ',' ∉ color
  component : ∃ part, IsBetweenCommas value.toList part ∧ color = trim part

theorem IsBetweenCommas.subset {text part : List Char} (h : IsBetweenCommas text part) :
    part ⊆ text := by
  obtain ⟨before, after, rfl, -, -⟩ := h.bounded
  exact fun c hc => List.mem_append_right _ (List.mem_append_left _ hc)

/-- A color has no characters but those of its pair. -/
theorem IsColorOf.subset {value : String} {color : List Char} (h : IsColorOf value color) :
    color ⊆ value.toList := by
  obtain ⟨part, hpart, rfl⟩ := h.component
  exact List.Subset.trans (trim_sublist part).subset hpart.subset

theorem IsBetweenCommas.isColorOf {value : String} {part : List Char}
    (h : IsBetweenCommas value.toList part) (hne : trim part ≠ []) :
    IsColorOf value (trim part) where
  ne_nil := hne
  not_blank_first := fun _ => isBlank_of_mem_head?_trim
  not_blank_last := fun _ => isBlank_of_mem_getLast?_trim
  comma_free := fun hc => h.comma_free ((trim_sublist part).subset hc)
  component := ⟨part, h, rfl⟩

theorem isColorOf_firstColor {value : String} (h : firstColor value ≠ []) :
    IsColorOf value (firstColor value) := by
  have hpart : IsBetweenCommas value.toList (value.toList.takeWhile (· ≠ ',')) :=
    isBetweenCommas_takeWhile (List.nil_append _).symm (by simp)
  exact hpart.isColorOf h

theorem isColorOf_secondColor {value : String} (h : secondColor value ≠ []) :
    IsColorOf value (secondColor value) := by
  by_cases hcomma : ',' ∈ value.toList
  · have hpart : IsBetweenCommas value.toList
        ((afterComma value.toList).takeWhile (· ≠ ',')) := by
      have hsplit : value.toList =
          (value.toList.takeWhile (· ≠ ',') ++ [',']) ++ afterComma value.toList := by
        rw [List.append_assoc, List.singleton_append, ← eq_append_afterComma hcomma]
      exact isBetweenCommas_takeWhile hsplit (by simp)
    exact hpart.isColorOf h
  · rw [secondColor, afterComma_of_not_mem hcomma] at h
    exact absurd rfl h

/-- Every color that is chosen from a pair with a first color is a color of the pair. -/
theorem isColorOf_chosen {value : String} (h : firstColor value ≠ []) (mode : ColorMode)
    (a : Appearance) : IsColorOf value (chosen mode a value) := by
  have hfirst := isColorOf_firstColor h
  have hlast : IsColorOf value (lastColor value) := by
    rw [lastColor]
    split
    · exact hfirst
    · next hsecond => exact isColorOf_secondColor hsecond
  cases mode with
  | light => exact hfirst
  | dark => exact hlast
  | adaptive =>
    cases a with
    | light => exact hfirst
    | dark => exact hlast

end ColorPair

/-! ## Reading all color variables -/

open ColorPair

section

variable {mode : ColorMode} {raw : List (String × String)}

theorem readColors_cons (mode : ColorMode) (e : String × String) (raw : List (String × String)) :
    readColors mode (e :: raw) = (do
      let p ← ColorPair.read mode e.1 e.2
      let colors ← readColors mode raw
      return (e.1, p) :: colors) := by
  simp only [readColors, List.mapM_cons, bind_assoc, pure_bind]

theorem read_eq_ok {value : String} (h : firstColor value ≠ []) (mode : ColorMode)
    (key : String) : ColorPair.read mode key value = .ok (choice mode value) := by
  rw [ColorPair.read, read?_eq, if_neg h]

theorem read_eq_error {value : String} (h : firstColor value = []) (mode : ColorMode)
    (key : String) : ColorPair.read mode key value = .error (.malformedPair key value) := by
  rw [ColorPair.read, read?_eq, if_pos h]

/-- Color variables that all have a first color are read, each by itself. -/
theorem readColors_eq_ok (h : ∀ e ∈ raw, firstColor e.2 ≠ []) :
    readColors mode raw = .ok (raw.map fun e => (e.1, choice mode e.2)) := by
  induction raw with
  | nil => rfl
  | cons e rest ih =>
    obtain ⟨he, hrest⟩ := List.forall_mem_cons.mp h
    rw [readColors_cons, read_eq_ok he, ih hrest]
    rfl

/-- A color variable without a first color is what is wrong with all of them. -/
theorem exists_readColors_eq_error (h : ∃ e ∈ raw, firstColor e.2 = []) :
    ∃ e ∈ raw, firstColor e.2 = [] ∧ readColors mode raw = .error (.malformedPair e.1 e.2) := by
  induction raw with
  | nil => simp at h
  | cons e rest ih =>
    by_cases he : firstColor e.2 = []
    · refine ⟨e, List.mem_cons_self, he, ?_⟩
      rw [readColors_cons, read_eq_error he]
      rfl
    · have hrest : ∃ f ∈ rest, firstColor f.2 = [] := by simpa [he] using h
      obtain ⟨f, hf, hempty, herror⟩ := ih hrest
      refine ⟨f, List.mem_cons_of_mem _ hf, hempty, ?_⟩
      rw [readColors_cons, read_eq_ok he, herror]
      rfl

theorem readColors_eq_ok_iff {colors : ColorVariables} : readColors mode raw = .ok colors ↔
    (∀ e ∈ raw, firstColor e.2 ≠ []) ∧ colors = raw.map fun e => (e.1, choice mode e.2) := by
  constructor
  · intro h
    have hall : ∀ e ∈ raw, firstColor e.2 ≠ [] := by
      intro e he hempty
      obtain ⟨f, -, -, herror⟩ := exists_readColors_eq_error ⟨e, he, hempty⟩
      cases h.symm.trans herror
    exact ⟨hall, Except.ok.inj (h.symm.trans (readColors_eq_ok hall))⟩
  · rintro ⟨hall, rfl⟩
    exact readColors_eq_ok hall

theorem malformed_of_readColors {e : ColorError} (h : readColors mode raw = .error e) :
    ∃ p ∈ raw, firstColor p.2 = [] ∧ e = .malformedPair p.1 p.2 := by
  have hsome : ∃ p ∈ raw, firstColor p.2 = [] := by
    by_contra hnone
    push Not at hnone
    cases h.symm.trans (readColors_eq_ok hnone)
  obtain ⟨p, hp, hempty, herror⟩ := exists_readColors_eq_error hsome
  exact ⟨p, hp, hempty, Except.error.inj (h.symm.trans herror)⟩

end

namespace Table

variable {κ α β : Type} [DecidableEq κ]

theorem findIn_map (f : α → β) (key : κ) (entries : List (κ × α)) :
    findIn key (entries.map fun e => (e.1, f e.2)) = (findIn key entries).map f := by
  induction entries with
  | nil => rfl
  | cons e rest ih =>
    simp only [List.map_cons, findIn, ih]
    split <;> rfl

/-- A table is found in its entries in any order. -/
theorem findIn_of_perm {t : Table κ α} (h : t.keys.Nodup) {order : List (κ × α)}
    (horder : order.Perm t.entries) (key : κ) : findIn key order = t.find? key := by
  have hkeys : (Table.mk order).keys.Nodup := ((horder.map _).nodup_iff).mpr h
  refine Option.ext fun value => ?_
  rw [find?_eq_some_iff h, ← horder.mem_iff]
  exact find?_eq_some_iff hkeys

end Table

/-! ## Colors of themes -/

namespace Theme

theorem pick?_eq (t : Theme) (a : Appearance) (pair : String) : t.pick? a pair =
    if firstColor pair = [] then none else some (.ofList (chosen t.mode a pair)) := by
  rw [pick?, read?_eq]
  split
  · rfl
  · rw [Option.map_some, on_choice]

theorem bind_pick?_eq_some {t source : Theme} {token color : String} {a : Appearance}
    (h : (source.pair? token).bind (t.pick? a) = some color) :
    ∃ pair, source.pair? token = some pair ∧ firstColor pair ≠ [] ∧
      color = .ofList (chosen t.mode a pair) := by
  obtain ⟨pair, hpair, hpick⟩ := Option.bind_eq_some_iff.mp h
  rw [pick?_eq] at hpick
  split at hpick
  case isTrue => cases hpick
  case isFalse hfirst => exact ⟨pair, hpair, hfirst, (Option.some.inj hpick).symm⟩

/-- A color comes from the theme's own pair, from that of the standard theme, or is the last
resort. -/
theorem color_cases (t : Theme) (token : String) (a : Appearance) :
    (∃ source pair, (source = t ∨ source = standard) ∧ source.pair? token = some pair ∧
      firstColor pair ≠ [] ∧ t.color token a = .ofList (chosen t.mode a pair)) ∨
    t.color token a = lastResort := by
  rw [color]
  cases hown : (t.pair? token).bind (t.pick? a) with
  | some color =>
    obtain ⟨pair, hpair, hfirst, hcolor⟩ := bind_pick?_eq_some hown
    exact .inl ⟨t, pair, .inl rfl, hpair, hfirst, hcolor⟩
  | none =>
    rw [Option.none_or]
    cases hstandard : (standard.pair? token).bind (t.pick? a) with
    | some color =>
      obtain ⟨pair, hpair, hfirst, hcolor⟩ := bind_pick?_eq_some hstandard
      exact .inl ⟨standard, pair, .inr rfl, hpair, hfirst, hcolor⟩
    | none => exact .inr rfl

theorem color_ne_empty (t : Theme) (token : String) (a : Appearance) : t.color token a ≠ "" := by
  rcases t.color_cases token a with ⟨source, pair, -, -, hfirst, hcolor⟩ | hcolor
  · rw [hcolor, Ne, ← String.toList_inj, String.toList_ofList]
    exact (isColorOf_chosen hfirst t.mode a).ne_nil
  · rw [hcolor]
    decide

theorem color_of_pair? {t : Theme} {token pair : String} (hpair : t.pair? token = some pair)
    (hfirst : firstColor pair ≠ []) (a : Appearance) :
    t.color token a = .ofList (chosen t.mode a pair) := by
  rw [color, hpair, Option.bind_some, pick?_eq, if_neg hfirst, Option.some_or, Option.getD_some]

end Theme

/-- Color variables, in whatever order they come, are all read if every one of them has a first
color, and otherwise none is, for the fault of one without. There is then a color for each variable
and for nothing else, on light screens and on dark ones: a trimmed part of the written pair, chosen
as the mode says. Every token of every theme has a color, and it is the one that is chosen from the
theme's own pair if that has a first color. -/
theorem colors_resolve_totally (mode : ColorMode) {raw : Table String String}
    (hraw : raw.keys.Nodup) {order : List (String × String)} (horder : order.Perm raw.entries)
    (t : Theme) (token : String) (a : Appearance) :
    ((∃ colors, readColors mode order = .ok colors) ↔
      ∀ key value, raw.find? key = some value → firstColor value ≠ []) ∧
    (∀ e, readColors mode order = .error e → ∃ key value, raw.find? key = some value ∧
      firstColor value = [] ∧ e = .malformedPair key value) ∧
    (∀ colors, readColors mode order = .ok colors → ∀ screen,
      ((colors.on screen).map (·.1)).Perm raw.keys ∧
      (∀ key, Table.findIn key (colors.on screen) =
        (raw.find? key).map fun value => .ofList (chosen mode screen value)) ∧
      ∀ key value, raw.find? key = some value → IsColorOf value (chosen mode screen value)) ∧
    t.color token a ≠ "" ∧
    ∀ pair, t.pair? token = some pair → firstColor pair ≠ [] →
      ∃ colors, ColorPair.read t.mode token pair = .ok colors ∧
        t.color token a = colors.on a ∧ t.color token a = .ofList (chosen t.mode a pair) := by
  have hmem : ∀ key value, raw.find? key = some value ↔ (key, value) ∈ order := fun key value =>
    (Table.find?_eq_some_iff hraw).trans horder.mem_iff.symm
  refine ⟨?_, fun e he => ?_, fun colors hcolors screen => ?_, t.color_ne_empty token a,
    fun pair hpair hfirst => ?_⟩
  · simp only [readColors_eq_ok_iff, hmem, exists_and_left, exists_eq, and_true, Prod.forall]
  · obtain ⟨⟨key, value⟩, hp, hempty, rfl⟩ := malformed_of_readColors he
    exact ⟨key, value, (hmem key value).mpr hp, hempty, rfl⟩
  · obtain ⟨hall, rfl⟩ := readColors_eq_ok_iff.mp hcolors
    have hon : ColorVariables.on (order.map fun e => (e.1, choice mode e.2)) screen =
        order.map fun e => (e.1, .ofList (chosen mode screen e.2)) := by
      simp only [ColorVariables.on, List.map_map, Function.comp_def, on_choice]
    refine ⟨?_, fun key => ?_, fun key value hvalue => ?_⟩
    · rw [hon, List.map_map]
      exact horder.map _
    · rw [hon, Table.findIn_map (fun value => String.ofList (chosen mode screen value)),
        Table.findIn_of_perm hraw horder]
    · exact isColorOf_chosen (hall _ ((hmem key value).mp hvalue)) mode screen
  · have hcolor := Theme.color_of_pair? hpair hfirst a
    exact ⟨choice t.mode pair, read_eq_ok hfirst t.mode token, by rw [hcolor, on_choice], hcolor⟩

/-- A pair with a third part, one without a second and one with an empty second, where all screens
are dark. -/
theorem colors_resolve_totally_of_uneven_pairs :
    let raw : Table String String :=
      .ofList [("back", " #fff ,\t#000,#abc"), ("text", "#123456"), ("edge", "#f00, ")]
    ∃ colors, readColors .dark raw.entries.reverse = .ok colors ∧
      Table.findIn "back" (colors.on .light) = some "#000" ∧
      Table.findIn "text" (colors.on .light) = some "#123456" ∧
      Table.findIn "edge" (colors.on .dark) = some "#f00" ∧
      Theme.standard.color "text-default" .dark = "#e0e0e0" := by
  intro raw
  have hkeys : raw.keys.Nodup := Table.nodup_keys_ofList _
  have hpair : Theme.standard.pair? "text-default" = some "#212121,#e0e0e0" := by decide
  obtain ⟨hread, -, hcolors, -, htheme⟩ := colors_resolve_totally .dark hkeys
    (List.reverse_perm _) Theme.standard "text-default" .dark
  have hall : ∀ e ∈ raw.entries, firstColor e.2 ≠ [] := by decide
  obtain ⟨colors, hok⟩ := hread.mpr fun key value h => hall (key, value) (Table.mem_of_find? h)
  obtain ⟨-, hlight, -⟩ := hcolors colors hok .light
  obtain ⟨-, hdark, -⟩ := hcolors colors hok .dark
  obtain ⟨-, -, -, hcolor⟩ := htheme _ hpair (by decide)
  exact ⟨colors, hok, (hlight "back").trans (by decide), (hlight "text").trans (by decide),
    (hdark "edge").trans (by decide), hcolor.trans (by decide)⟩

end MessageCard
