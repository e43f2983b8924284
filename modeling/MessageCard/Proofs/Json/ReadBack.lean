import MessageCard.Json.Writer
import MessageCard.Proofs.Json.Strings

/-!
# What is written is read back

A value without numbers is written without blanks, its strings with the escapes that they need, and
the reader comes from that text back to the value. The reader stands at a place where a value may
begin, with some containers open around it, and when the text of the value is over it has the value
complete in the innermost of them; so elements and members follow one another by the same argument.

Two things have to hold of the value besides. The keys of its objects ascend, since that is the
order in which members are kept, and containers are not nested deeper than the reader follows them.
-/
namespace MessageCard.Json

/-- A value without numbers, in which keys ascend and no more containers are open at once than a
given number. -/
inductive IsTextual : Nat → Json → Prop
  | null {depth : Nat} : IsTextual depth .null
  | bool {depth : Nat} (b : Bool) : IsTextual depth (.bool b)
  | string {depth : Nat} (s : String) : IsTextual depth (.string s)
  | array {depth : Nat} {items : List Json} (each : ∀ x ∈ items, IsTextual depth x) :
      IsTextual (depth + 1) (.array items)
  | object {depth : Nat} {members : List (String × Json)}
      (ascending : members.Pairwise fun a b => a.1 < b.1)
      (each : ∀ m ∈ members, IsTextual depth m.2) : IsTextual (depth + 1) (.object members)

/-- A member whose key comes last goes to the end. -/
theorem insertMember_of_forall_lt {key : String} {members : List (String × Json)}
    (h : ∀ m ∈ members, m.1 < key) (value : Json) :
    insertMember key value members = members ++ [(key, value)] := by
  induction members with
  | nil => rfl
  | cons m rest ih =>
    obtain ⟨hm, hrest⟩ := List.forall_mem_cons.mp h
    have hne : key ≠ m.1 := fun he => String.lt_irrefl key (he ▸ hm)
    have hnot : ¬key < m.1 := fun hlt => String.lt_irrefl key (String.lt_trans hlt hm)
    rw [insertMember, if_neg hne, if_neg hnot, ih hrest, List.cons_append]

namespace ReaderState

/-! ## Strings -/

theorem hexValue?_hexDigit {n : Nat} (h : n < 16) :
    hexValue? (hexDigit n) = some n ∧ (hexDigit n).utf8Size = 1 := by
  revert n
  decide

/-- A digit of an escape that is not the last one. -/
theorem after?_hexDigit {r : ReaderState} {isKey : Bool} {chars : List Char} {bytes value : Nat}
    (hbytes : bytes < 3) {n : Nat} (hn : n < 16) (rest : List Char) :
    ({ r with mode := .text isKey chars (.hex none bytes value true) } : ReaderState).after?
        (hexDigit n :: rest) =
      ({ r with mode := .text isKey chars (.hex none (bytes + 1) (value * 16 + n) true) } :
        ReaderState).after? rest := by
  obtain ⟨hvalue, hsize⟩ := hexValue?_hexDigit hn
  have hlt : bytes + 1 < 4 := by omega
  refine after?_cons_of_ok ?_ rest
  simp [step, stepText, hvalue, hsize, hlt]

/-- A control character is read from its four digits. -/
theorem after?_controlEscape (r : ReaderState) (isKey : Bool) (chars : List Char) {c : Char}
    (hc : c.toNat < 32) :
    (r.inside isKey chars).after?
        ['\\', 'u', '0', '0', hexDigit (c.toNat / 16), hexDigit (c.toNat % 16)] =
      some (r.inside isKey (c :: chars)) := by
  have hzero : '0' = hexDigit 0 := by decide
  have hopen : ∀ rest, (r.inside isKey chars).after? ('\\' :: 'u' :: rest) =
      ({ r with mode := .text isKey chars (.hex none 0 0 true) } : ReaderState).after? rest :=
    fun rest => rfl
  obtain ⟨hvalue, hsize⟩ := hexValue?_hexDigit (n := c.toNat % 16) (by omega)
  have hnumber : ((0 * 16 + 0) * 16 + 0) * 16 + c.toNat / 16 = c.toNat / 16 := by omega
  have hwhole : c.toNat / 16 * 16 + c.toNat % 16 = c.toNat := by omega
  have hlow : ¬0xDC00 ≤ c.toNat := by omega
  have hhigh : ¬0xD800 ≤ c.toNat := by omega
  rw [hopen, hzero, after?_hexDigit (by decide) (by decide), after?_hexDigit (by decide) (by decide),
    after?_hexDigit (by decide) (by omega), hnumber]
  refine after?_cons_of_ok ?_ []
  simp [step, stepText, hvalue, hsize, hwhole, endHex, hlow, hhigh, inside]

/-- Inside a string a character is read from the way it is written there. -/
theorem after?_escapeChar (r : ReaderState) (isKey : Bool) (chars : List Char) (c : Char) :
    (r.inside isKey chars).after? (escapeChar c) = some (r.inside isKey (c :: chars)) := by
  unfold escapeChar
  split
  case h_8 hquote hbackslash _ _ _ _ _ =>
    split
    case isTrue hc => exact after?_controlEscape r isKey chars hc
    case isFalse hc =>
      exact after?_cons_of_ok (step_inside_plain r isKey chars hquote hbackslash (by omega)) []
  all_goals rfl

theorem after?_escape (r : ReaderState) (isKey : Bool) (chars s : List Char) :
    (r.inside isKey chars).after? (escape s) = some (r.inside isKey (s.reverse ++ chars)) := by
  induction s generalizing chars with
  | nil => rfl
  | cons c rest ih =>
    rw [escape, List.flatMap_cons, after?_append, after?_escapeChar, Option.bind_some]
    rw [← escape, ih, List.reverse_cons, List.append_assoc, List.singleton_append]

/-- The rest of a string after its first quote. -/
theorem after?_rest_of_quote (r : ReaderState) (isKey : Bool) (s : String) :
    (r.inside isKey []).after? (escape s.toList ++ ['"']) =
      some ((r.inside isKey s.toList.reverse).endText isKey s.toList.reverse) := by
  rw [after?_append, after?_escape, List.append_nil, Option.bind_some]
  rfl

/-! ## Values -/

/-- A value may begin. -/
def AwaitsValue (r : ReaderState) : Prop := r.mode = .value ∨ r.mode = .firstItem

theorem AwaitsValue.step_eq {r : ReaderState} (h : r.AwaitsValue) {c : Char}
    (hblank : blankChars.contains c = false) (hclose : c ≠ ']') : r.step c = r.startValue c := by
  rcases h with h | h <;>
    simp only [step, h, hclose, hblank, Bool.false_eq_true, if_false, false_and]

/-- A value of which the text brings the reader from any place where it may begin to its end, as
long as some more containers may be opened. -/
def IsReadBack (depth : Nat) (j : Json) : Prop :=
  ∀ r : ReaderState, r.AwaitsValue → r.containers.length + depth ≤ depthLimit →
    r.after? (write j) = some (r.complete j)

theorem isReadBack_null (depth : Nat) : IsReadBack depth .null := by
  intro r hr _
  rw [write, after?_cons_of_ok (hr.step_eq rfl (by decide))]
  rfl

theorem isReadBack_bool (depth : Nat) (b : Bool) : IsReadBack depth (.bool b) := by
  intro r hr _
  cases b <;> rw [write, after?_cons_of_ok (hr.step_eq rfl (by decide))] <;> rfl

theorem isReadBack_string (depth : Nat) (s : String) : IsReadBack depth (.string s) := by
  intro r hr _
  have hstart : r.step '"' = .ok (r.inside false []) := hr.step_eq rfl (by decide)
  rw [write, quote, after?_cons_of_ok hstart, after?_rest_of_quote, endText, List.reverse_reverse,
    String.ofList_toList]
  rfl

/-- A container is opened as long as there is room. -/
theorem opened_eq {r : ReaderState} (hroom : r.containers.length < depthLimit) (c : Container)
    (mode : Mode) : r.opened c mode = .ok { r with containers := c :: r.containers, mode } := by
  rw [opened, if_neg (Nat.not_le.mpr hroom)]

/-! ## Arrays -/

/-- The elements that are left of an array are read up to its closing bracket. -/
theorem after?_writeItems {depth : Nat} (outer : List Container) :
    ∀ (items acc : List Json) (mode : Mode) (result : Option Json),
    (∀ x ∈ items, IsReadBack depth x) → outer.length + 1 + depth ≤ depthLimit →
    mode = .firstItem ∨ mode = .value ∧ items ≠ [] →
    (⟨.array acc :: outer, mode, result⟩ : ReaderState).after? (writeItems items) =
      some ((⟨outer, mode, result⟩ : ReaderState).complete (.array (acc.reverse ++ items)))
  | [], acc, mode, result, hitems, hroom, hmode => by
    obtain rfl : mode = .firstItem := hmode.resolve_right fun h => h.2 rfl
    rw [List.append_nil]
    rfl
  | [x], acc, mode, result, hitems, hroom, hmode => by
    have hawaits : (⟨.array acc :: outer, mode, result⟩ : ReaderState).AwaitsValue :=
      (hmode.imp_right And.left).symm
    rw [writeItems, after?_append, hitems x List.mem_cons_self _ hawaits hroom, Option.bind_some,
      ← List.reverse_cons]
    rfl
  | x :: y :: rest, acc, mode, result, hitems, hroom, hmode => by
    have hawaits : (⟨.array acc :: outer, mode, result⟩ : ReaderState).AwaitsValue :=
      (hmode.imp_right And.left).symm
    have hrest : ∀ z ∈ y :: rest, IsReadBack depth z :=
      fun z hz => hitems z (List.mem_cons_of_mem x hz)
    have hnext := after?_writeItems outer (y :: rest) (x :: acc) .value none hrest hroom
      (.inr ⟨rfl, List.cons_ne_nil _ _⟩)
    rw [writeItems, after?_append, hitems x List.mem_cons_self _ hawaits hroom, Option.bind_some]
    · exact hnext.trans (by rw [List.reverse_cons, List.append_assoc]; rfl)
    · exact List.cons_ne_nil _ _

theorem isReadBack_array {depth : Nat} {items : List Json} (h : ∀ x ∈ items, IsReadBack depth x) :
    IsReadBack (depth + 1) (.array items) := by
  intro r hr hroom
  have hstart : r.step '[' = r.opened (.array []) .firstItem := hr.step_eq rfl (by decide)
  rw [opened_eq (by omega)] at hstart
  rw [write, after?_cons_of_ok hstart,
    after?_writeItems r.containers items [] .firstItem r.result h (by omega) (.inl rfl)]
  rfl

/-! ## Objects -/

/-- A member is read whose key comes after those so far. -/
theorem after?_member {depth : Nat} (outer : List Container) {acc : List (String × Json)}
    (before : String) {mode : Mode} (result : Option Json) {key : String} {x : Json}
    (hmode : mode = .firstKey ∨ mode = .nextKey) (hlast : ∀ m ∈ acc, m.1 < key)
    (hx : IsReadBack depth x) (hroom : outer.length + 1 + depth ≤ depthLimit) (text : List Char) :
    (⟨.object acc before :: outer, mode, result⟩ : ReaderState).after?
        (quote key ++ ':' :: (write x ++ text)) =
      (⟨.object (acc ++ [(key, x)]) key :: outer, .afterValue, none⟩ : ReaderState).after? text := by
  let r : ReaderState := ⟨.object acc before :: outer, mode, result⟩
  let valued : ReaderState := ⟨.object acc key :: outer, .value, result⟩
  have hstart : r.step '"' = .ok (r.inside true []) := by
    rcases hmode with rfl | rfl <;> rfl
  have hend : (r.inside true key.toList.reverse).endText true key.toList.reverse =
      ⟨.object acc key :: outer, .colon, result⟩ := by
    simp only [r, inside, endText, if_true, List.reverse_reverse, String.ofList_toList]
  have hcolon : ∀ rest, (⟨.object acc key :: outer, .colon, result⟩ : ReaderState).after?
      (':' :: rest) = valued.after? rest := fun rest => rfl
  have hcomplete : valued.complete x =
      ⟨.object (acc ++ [(key, x)]) key :: outer, .afterValue, none⟩ := by
    rw [← insertMember_of_forall_lt hlast]
    rfl
  rw [quote, List.cons_append, after?_cons_of_ok hstart, after?_append, after?_rest_of_quote, hend,
    Option.bind_some, hcolon, after?_append, hx valued (.inl rfl) hroom, Option.bind_some,
    hcomplete]

/-- The members that are left of an object are read up to its closing brace. -/
theorem after?_writeMembers {depth : Nat} (outer : List Container) :
    ∀ (members acc : List (String × Json)) (before : String) (mode : Mode) (result : Option Json),
    (∀ m ∈ members, IsReadBack depth m.2) → outer.length + 1 + depth ≤ depthLimit →
    mode = .firstKey ∨ mode = .nextKey ∧ members ≠ [] →
    (acc ++ members).Pairwise (fun a b => a.1 < b.1) →
    (⟨.object acc before :: outer, mode, result⟩ : ReaderState).after? (writeMembers members) =
      some ((⟨outer, mode, result⟩ : ReaderState).complete (.object (acc ++ members)))
  | [], acc, before, mode, result, hmembers, hroom, hmode, hascending => by
    obtain rfl : mode = .firstKey := hmode.resolve_right fun h => h.2 rfl
    rw [List.append_nil]
    rfl
  | [(key, x)], acc, before, mode, result, hmembers, hroom, hmode, hascending => by
    have hlast : ∀ m ∈ acc, m.1 < key :=
      fun m hm => (List.pairwise_append.mp hascending).2.2 m hm _ List.mem_cons_self
    rw [writeMembers, after?_member outer before result (hmode.imp_right And.left) hlast
      (hmembers _ List.mem_cons_self) hroom]
    rfl
  | (key, x) :: m :: rest, acc, before, mode, result, hmembers, hroom, hmode, hascending => by
    have hlast : ∀ m ∈ acc, m.1 < key :=
      fun m hm => (List.pairwise_append.mp hascending).2.2 m hm _ List.mem_cons_self
    have hrest : ∀ n ∈ m :: rest, IsReadBack depth n.2 :=
      fun n hn => hmembers n (List.mem_cons_of_mem _ hn)
    rw [List.append_cons] at hascending
    have hnext := after?_writeMembers outer (m :: rest) (acc ++ [(key, x)]) key .nextKey none hrest
      hroom (.inr ⟨rfl, List.cons_ne_nil _ _⟩) hascending
    rw [List.append_cons, writeMembers, after?_member outer before result
      (hmode.imp_right And.left) hlast (hmembers _ List.mem_cons_self) hroom]
    · exact hnext
    · exact List.cons_ne_nil _ _

theorem isReadBack_object {depth : Nat} {members : List (String × Json)}
    (h : ∀ m ∈ members, IsReadBack depth m.2)
    (hascending : members.Pairwise fun a b => a.1 < b.1) :
    IsReadBack (depth + 1) (.object members) := by
  intro r hr hroom
  have hstart : r.step '\x7b' = r.opened (.object [] "") .firstKey := hr.step_eq rfl (by decide)
  rw [opened_eq (by omega)] at hstart
  rw [write, after?_cons_of_ok hstart, after?_writeMembers r.containers members [] "" .firstKey
    r.result h (by omega) (.inl rfl) hascending]
  rfl

end ReaderState

/-! ## Documents -/

theorem IsTextual.isReadBack {depth : Nat} {j : Json} (h : IsTextual depth j) :
    ReaderState.IsReadBack depth j := by
  induction h with
  | null => exact ReaderState.isReadBack_null _
  | bool b => exact ReaderState.isReadBack_bool _ b
  | string s => exact ReaderState.isReadBack_string _ s
  | array _ ih => exact ReaderState.isReadBack_array ih
  | object ascending _ ih => exact ReaderState.isReadBack_object ih ascending

/-- A value without numbers is read back from its text. -/
theorem ofText_toText {j : Json} (h : IsTextual depthLimit j) : ofText j.toText = .ok j := by
  have hread := h.isReadBack .initial (.inl rfl) (Nat.le_of_eq (Nat.zero_add depthLimit))
  rw [ofText, toText, String.toList_ofList, ofChars_eq_ok_iff, ReaderState.outcome?, hread]
  rfl

end MessageCard.Json
