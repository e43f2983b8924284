import MessageCard.Proofs.Catalog.Bookkeeping
import MessageCard.Proofs.Catalog.Resolving

/-!
# What an operation leaves alone

The entries of both kinds lie on one shelf, the tokens are kept by kind, the failures by key, and the
running downloads by kind and key. All that can be learned about a kind is in its part of this: its
entries, its token, and which of its downloads are running. So an operation on one kind shows
nothing to the other if it leaves that part alone, and each operation does.

What resolving a message changes is the entry that turns out to be no template, and the failures of
its key. An entry never lies under another key than its own, as long as the shelf was filled entry by
entry.
-/
namespace MessageCard

/-! ## Shelves -/

/-- Whether a key is looked for in the space of a kind. -/
def TemplateKind.has (kind : TemplateKind) (target : TemplateKind × String) : Bool :=
  target.1 = kind

/-- What the owner of a shelf may do with it. -/
inductive ShelfChange where
  | insert (kind : TemplateKind) (e : TemplateEntry)
  | remove (kind : TemplateKind) (key : String)
  | setToken (kind : TemplateKind) (token : String)
  | clear (kind : TemplateKind)

namespace ShelfChange

def kind : ShelfChange → TemplateKind
  | .insert kind _ => kind
  | .remove kind _ => kind
  | .setToken kind _ => kind
  | .clear kind => kind

/-- The shelf after a change. -/
def apply (c : ShelfChange) (s : Shelf) : Shelf :=
  match c with
  | .insert kind e => s.insert kind e
  | .remove kind key => s.remove kind key
  | .setToken kind token => s.setToken kind token
  | .clear kind => s.clear kind

end ShelfChange

namespace Shelf

/-- A shelf that came about by changes. -/
inductive IsMade : Shelf → Prop
  | empty : IsMade .empty
  | change {s : Shelf} (made : IsMade s) (c : ShelfChange) : IsMade (c.apply s)

/-- Every entry lies under its own key. -/
def IsKeyed (s : Shelf) : Prop := ∀ kind key e, s.get? kind key = some e → e.key = key

/-- What a shelf holds for a kind. -/
def part (s : Shelf) (kind : TemplateKind) :
    Table (TemplateKind × String) TemplateEntry × Option String :=
  (s.entries.filterKeys kind.has, s.token? kind)

variable {s r : Shelf} {kind other : TemplateKind}

theorem find?_part (s : Shelf) (kind : TemplateKind) (key : String) :
    (s.part kind).1.find? (kind, key) = s.get? kind key := by
  have hhas : kind.has (kind, key) = true := decide_eq_true rfl
  rw [part, Table.find?_filterKeys, if_pos hhas, get?]

theorem keys_part (s : Shelf) (kind : TemplateKind) :
    s.keys kind = ((s.part kind).1.keys.map (·.2)).mergeSort fun a b => a ≤ b := by
  rw [keys, Table.keys, List.filter_map]
  rfl

theorem part_insert_of_ne (h : kind ≠ other) (s : Shelf) (e : TemplateEntry) :
    (s.insert kind e).part other = s.part other :=
  Prod.ext (Table.filterKeys_insert_of_eq_false other.has (decide_eq_false h) s.entries e) rfl

theorem part_insertAll_of_ne (h : kind ≠ other) (s : Shelf) (es : List TemplateEntry) :
    (s.insertAll kind es).part other = s.part other := by
  induction es generalizing s with
  | nil => rfl
  | cons e rest ih => exact (ih (s.insert kind e)).trans (part_insert_of_ne h s e)

theorem part_remove_of_ne (h : kind ≠ other) (s : Shelf) (key : String) :
    (s.remove kind key).part other = s.part other :=
  Prod.ext (Table.filterKeys_erase_of_eq_false other.has (decide_eq_false h) s.entries) rfl

theorem part_setToken_of_ne (h : kind ≠ other) (s : Shelf) (token : String) :
    (s.setToken kind token).part other = s.part other :=
  Prod.ext rfl ((s.token?_setToken kind other token).trans (if_neg h))

theorem part_clear_of_ne (h : kind ≠ other) (s : Shelf) :
    (s.clear kind).part other = s.part other := by
  refine Prod.ext (Table.filterKeys_filterKeys_of_imp other.has _ (fun target htarget => ?_) _) ?_
  · exact decide_eq_true fun he => h (he.symm.trans (of_decide_eq_true htarget))
  · exact (Table.find?_erase ..).trans (if_neg h)

theorem part_take_of_ne (h : kind ≠ other) (s : Shelf) (p : CatalogPage) :
    (s.take kind p).part other = s.part other := by
  have hfilled := part_insertAll_of_ne h s p.entries
  unfold take
  cases p.token with
  | none => exact hfilled
  | some token => exact (part_setToken_of_ne h _ token).trans hfilled

/-- A change for one kind leaves the part of another kind alone. -/
theorem part_apply_of_ne {c : ShelfChange} (h : c.kind ≠ kind) (s : Shelf) :
    (c.apply s).part kind = s.part kind := by
  cases c with
  | insert other e => exact part_insert_of_ne h s e
  | remove other key => exact part_remove_of_ne h s key
  | setToken other token => exact part_setToken_of_ne h s token
  | clear other => exact part_clear_of_ne h s

/-! ## Keys -/

theorem IsWithin.isKeyed (h : s.IsWithin r) (hr : r.IsKeyed) : s.IsKeyed :=
  fun kind key e he => hr kind key e (h kind key e he)

theorem IsKeyed.insert (h : s.IsKeyed) (kind : TemplateKind) (e : TemplateEntry) :
    (s.insert kind e).IsKeyed := by
  intro other key f hf
  rw [get?_insert] at hf
  split at hf
  case isTrue hkey =>
    cases hf
    exact congrArg Prod.snd hkey
  case isFalse => exact h other key f hf

theorem IsKeyed.insertAll (h : s.IsKeyed) (kind : TemplateKind) (es : List TemplateEntry) :
    (s.insertAll kind es).IsKeyed := by
  induction es generalizing s with
  | nil => exact h
  | cons e rest ih => exact ih (h.insert kind e)

theorem IsKeyed.take (h : s.IsKeyed) (kind : TemplateKind) (p : CatalogPage) :
    (s.take kind p).IsKeyed := by
  unfold Shelf.take
  cases p.token with
  | none => exact h.insertAll kind p.entries
  | some token => exact h.insertAll kind p.entries

theorem isWithin_remove (s : Shelf) (kind : TemplateKind) (key : String) :
    (s.remove kind key).IsWithin s := by
  intro other wanted e he
  rw [get?_remove] at he
  split at he
  · cases he
  · exact he

theorem isWithin_clear (s : Shelf) (kind : TemplateKind) : (s.clear kind).IsWithin s := by
  intro other key e he
  have hclear : (s.clear kind).get? other key =
      if decide (other ≠ kind) then s.get? other key else none := Table.find?_filterKeys ..
  rw [hclear] at he
  split at he
  · exact he
  · cases he

theorem IsKeyed.apply (h : s.IsKeyed) (c : ShelfChange) : (c.apply s).IsKeyed := by
  cases c with
  | insert kind e => exact h.insert kind e
  | remove kind key => exact (s.isWithin_remove kind key).isKeyed h
  | setToken kind token => exact h
  | clear kind => exact (s.isWithin_clear kind).isKeyed h

theorem IsMade.isKeyed (h : s.IsMade) : s.IsKeyed := by
  induction h with
  | empty => exact fun kind key e he => nomatch he
  | change _ c ih => exact ih.apply c

end Shelf

/-! ## Downloads -/

namespace Downloads

variable {d e : Downloads} {kind other : TemplateKind}

/-- All questions about a kind have the same answers before and after. -/
structure AnswersAlike (kind : TemplateKind) (d e : Downloads) : Prop where
  get?_eq : ∀ key, e.shelf.get? kind key = d.shelf.get? kind key
  contains_eq : ∀ key, e.shelf.contains kind key = d.shelf.contains kind key
  keys_eq : e.shelf.keys kind = d.shelf.keys kind
  token?_eq : e.shelf.token? kind = d.shelf.token? kind
  isBehind_eq : ∀ token, e.shelf.isBehind kind token = d.shelf.isBehind kind token
  isRunning_eq : ∀ key, e.isRunning kind key = d.isRunning kind key

/-- The part of a kind has the answers to all questions about it. -/
theorem AnswersAlike.of_part (hshelf : e.shelf.part kind = d.shelf.part kind)
    (hrunning : ∀ key, (kind, key) ∈ e.running ↔ (kind, key) ∈ d.running) :
    AnswersAlike kind d e := by
  have hget (key : String) : e.shelf.get? kind key = d.shelf.get? kind key := by
    rw [← Shelf.find?_part, hshelf, Shelf.find?_part]
  have htoken : e.shelf.token? kind = d.shelf.token? kind := congrArg Prod.snd hshelf
  refine ⟨hget, fun key => congrArg Option.isSome (hget key), ?_, htoken, fun token => ?_,
    fun key => ?_⟩
  · rw [Shelf.keys_part, hshelf, Shelf.keys_part]
  · rw [Shelf.isBehind, htoken, Shelf.isBehind]
  · rw [Bool.eq_iff_iff]
    exact List.contains_iff_mem.trans ((hrunning key).trans List.contains_iff_mem.symm)

/-- Downloads after an entry was dropped. -/
structure IsDropped (kind : TemplateKind) (key : String) (d e : Downloads) : Prop where
  get?_eq : ∀ other wanted, e.shelf.get? other wanted =
    if (kind, key) = (other, wanted) then none else d.shelf.get? other wanted
  token?_eq : ∀ other, e.shelf.token? other = d.shelf.token? other
  running_eq : e.running = d.running
  limit_eq : e.attempts.limit = d.attempts.limit
  /-- One more failure, as far as counting goes. -/
  count_eq : ∀ wanted, e.attempts.count wanted =
    if key = wanted then min (d.attempts.count key + 1) Attempts.countLimit
    else d.attempts.count wanted

theorem isDropped_drop (d : Downloads) (kind : TemplateKind) (key : String) :
    IsDropped kind key d (d.drop kind key) where
  get?_eq _ _ := Shelf.get?_remove ..
  token?_eq _ := rfl
  running_eq := rfl
  limit_eq := rfl
  count_eq _ := Attempts.count_fail ..

theorem AnswersAlike.refl (kind : TemplateKind) (d : Downloads) : AnswersAlike kind d d :=
  .of_part rfl fun _ => Iff.rfl

end Downloads

/-! ## Traffic -/

/-- Whether something that happens is about a kind. What the owner does with the shelf may be about
any kind. -/
def Event.isAbout (kind : TemplateKind) : Event → Bool
  | .request other _ => other = kind
  | .ask x => x.kind = kind
  | .refuse x => x.kind = kind
  | .answer x _ => x.kind = kind
  | .deliver x _ => x.kind = kind
  | .aside (.resolve other _ _) => other = kind
  | .aside (.list other _) => other = kind
  | .aside (.restock _) => true
  | .aside (.charge _) => false
  | .aside (.reset _) => false

namespace Traffic

variable {t u : Traffic} {e : Event} {es past : List Event} {kind : TemplateKind}

open Downloads

/-- A step that is not about a kind leaves all answers about it as they are. -/
theorem Step.answersAlike (h : Step t e u) (habout : e.isAbout kind = false) :
    AnswersAlike kind t.downloads u.downloads := by
  cases h with
  | @request other key d starts =>
    have hne : other ≠ kind := of_decide_eq_false habout
    obtain ⟨-, -, rfl⟩ := request?_eq_some_iff.mp starts
    refine .of_part rfl fun wanted => ?_
    have hother : (kind, wanted) ≠ (other, key) := fun he => hne (congrArg Prod.fst he).symm
    exact List.mem_cons.trans (or_iff_right hother)
  | ask present started allowed => exact .refl kind _
  | refuse present started spent => exact .refl kind _
  | @answer x earlier later present asking a =>
    refine .of_part ?_ fun key => ?_
    · exact congrArg (Shelf.part · kind) (shelf_receive t.downloads x.key a)
    · exact Iff.of_eq (congrArg ((kind, key) ∈ ·) (running_receive t.downloads x.key a))
  | @deliver x earlier later result present finished =>
    have hne : x.kind ≠ kind := of_decide_eq_false habout
    refine .of_part ?_ fun key => ?_
    · cases result with
      | ok entry => exact Shelf.part_insert_of_ne hne _ entry
      | error f => rfl
    · have hother : (kind, key) ≠ (x.kind, x.key) := fun he => hne (congrArg Prod.fst he).symm
      exact List.mem_erase_of_ne hother
  | aside a =>
    cases a with
    | resolve other p s =>
      have hne : other ≠ kind := of_decide_eq_false habout
      show AnswersAlike kind _ (t.downloads.resolve other p s).2
      rcases t.downloads.resolve_cases other p s with hd | hd <;> rw [hd]
      · exact .refl kind _
      · exact .of_part (Shelf.part_remove_of_ne hne _ p.key) fun _ => Iff.rfl
    | list other page =>
      exact .of_part (Shelf.part_take_of_ne (of_decide_eq_false habout) _ page) fun _ => Iff.rfl
    | restock shelf => cases habout
    | charge key => exact .of_part rfl fun _ => Iff.rfl
    | reset key => exact .of_part rfl fun _ => Iff.rfl

/-- A step keeps every entry under its own key, if what the owner puts in the place of the shelf
does. -/
theorem Step.isKeyed (h : Step t e u) (hrestock : ∀ s, e = .aside (.restock s) → s.IsKeyed)
    (ht : t.downloads.shelf.IsKeyed) : u.downloads.shelf.IsKeyed := by
  by_cases hbrings : e.brings = true
  · cases h with
    | aside a =>
      cases a with
      | list kind page => exact ht.take kind page
      | restock shelf => exact hrestock shelf rfl
      | resolve | charge | reset => cases hbrings
    | request | ask | refuse | answer | deliver => cases hbrings
  · have hbrings : e.brings = false := Bool.eq_false_iff.mpr hbrings
    cases hdelivered : e.delivered? with
    | none => exact (h.shelf_isWithin hbrings hdelivered).isKeyed ht
    | some number =>
      obtain ⟨x, result, earlier, later, -, -, -, rfl⟩ := h.of_delivered hdelivered
      cases result with
      | ok entry => exact ht.insert x.kind entry
      | error f => exact ht

theorem Run.isKeyed (h : Run t es u) (hrestock : ∀ s, .aside (.restock s) ∈ es → s.IsKeyed)
    (ht : t.downloads.shelf.IsKeyed) : u.downloads.shelf.IsKeyed := by
  induction h with
  | nil => exact ht
  | concat hrun hstep ih =>
    have hbefore := ih fun s hs => hrestock s (List.mem_append_left _ hs)
    exact hstep.isKeyed (fun s hs => hrestock s (hs ▸ List.mem_concat_self)) hbefore

/-- In every run over shelves that were filled entry by entry: Resolving a message changes nothing
where its template is ready, missing or at fault with its colors; where the entry is no template, it
takes this entry from the shelf, counts a failure of its key, and changes nothing else. A step that
is not about a kind, or a change of the shelf for another kind, leaves all answers about the kind as
they are. And an entry found under a key carries that key. -/
theorem operations_keep_to_their_own {shelf : Shelf} {attempts : Attempts} (hshelf : shelf.IsMade)
    (hrestock : ∀ s, .aside (.restock s) ∈ past → s.IsMade)
    (h : Run (opening shelf attempts) past t) :
    (∀ kind p s, ((∃ template data, (t.downloads.resolve kind p s).1 = .ready template data) ∨
        t.downloads.shelf.get? kind p.key = none ∨
        ∃ body f, (t.downloads.resolve kind p s).1 = .failed body (.color f)) →
      (t.downloads.resolve kind p s).2 = t.downloads) ∧
    (∀ kind p s entry colors f, t.downloads.shelf.get? kind p.key = some entry →
      readColors s.theme.mode entry.colors.entries = .ok colors →
      readTemplate (Placeholder.bind p.values (colors.on s.appearance) entry.ui) = .error f →
      IsDropped kind p.key t.downloads (t.downloads.resolve kind p s).2) ∧
    (∀ kind e u, Step t e u → e.isAbout kind = false →
      AnswersAlike kind t.downloads u.downloads) ∧
    (∀ kind (c : ShelfChange) u, c.kind ≠ kind →
      Step t (.aside (.restock (c.apply t.downloads.shelf))) u →
      AnswersAlike kind t.downloads u.downloads) ∧
    ∀ kind key e, t.downloads.shelf.get? kind key = some e → e.key = key := by
  refine ⟨fun kind p s hresult => ?_, fun kind p s entry colors f held colored fails => ?_,
    fun kind e u hstep habout => hstep.answersAlike habout, fun kind c u hne hstep => ?_,
    h.isKeyed (fun s hs => (hrestock s hs).isKeyed) hshelf.isKeyed⟩
  · have hresolves := t.downloads.resolves kind p s
    generalize (t.downloads.resolve kind p s).1 = r,
      (t.downloads.resolve kind p s).2 = d at hresolves hresult ⊢
    cases hresolves with
    | missing absent => rfl
    | miscolored held rejected => rfl
    | ready held colored reads => rfl
    | unreadable held colored fails =>
      rcases hresult with ⟨template, data, hr⟩ | habsent | ⟨body, f, hr⟩
      · exact absurd hr (notReady_ne_ready _ template data)
      · cases habsent.symm.trans held
      · cases (notReady_eq_failed hr).2
  · have hdrop : (t.downloads.resolve kind p s).2 = t.downloads.drop kind p.key := by
      simp only [resolve, held, colored, fails]
    rw [hdrop]
    exact isDropped_drop t.downloads kind p.key
  · cases hstep
    exact .of_part (Shelf.part_apply_of_ne hne _) fun _ => Iff.rfl

/-- The same key in both spaces, where the entry for messages is no template: it goes, its failure
is counted, and notifications see nothing of it. -/
theorem operations_keep_to_their_own_of_both_kinds :
    ∃ (shelf : Shelf) (t : Traffic) (s : StandInSettings), shelf.IsMade ∧
      Run (opening shelf (.ofLimit 1)) [] t ∧
      IsDropped .message "k" t.downloads (t.downloads.resolve .message ⟨"k", []⟩ s).2 ∧
      ∃ u, Step t (.aside (.resolve .message ⟨"k", []⟩ s)) u ∧
        AnswersAlike .notification t.downloads u.downloads := by
  let e : TemplateEntry := ⟨"k", "x", "", .empty⟩
  have hmade : ((Shelf.empty.insert .message e).insert .notification e).IsMade :=
    .change (.change .empty (.insert .message e)) (.insert .notification e)
  obtain ⟨f, fails⟩ : ∃ f, readTemplate (Placeholder.bind [] [] "x") = .error f := ⟨_, rfl⟩
  obtain ⟨-, hdropped, halike, -, -⟩ :=
    operations_keep_to_their_own hmade (fun _ hs => absurd hs List.not_mem_nil)
      (.nil (t := opening _ (.ofLimit 1)))
  have hdropped := hdropped .message ⟨"k", []⟩ ⟨.standard, .light, 0⟩ e [] f rfl rfl fails
  exact ⟨_, _, _, hmade, .nil, hdropped, _, .aside _, halike .notification _ _ (.aside _) rfl⟩

end Traffic
end MessageCard
