import MessageCard.Catalog.Syncs
import MessageCard.Proofs.Catalog.Session
import MessageCard.Proofs.Catalog.TokenOrder

/-!
# The token of overlapping lists

A list is asked for when the catalog has come further than the shelf, but it is delivered without
another look at the token that the shelf has by then. So the token goes back exactly where a list
with an older token is delivered: a list that a later one has overtaken, or one that is older than
what it started from. It never goes back while lists come one at a time and none is older than its
start.
-/
namespace MessageCard

/-- Whether a token is followed by an older one, or by none. -/
def SetBack (old new : Option String) : Prop :=
  ∃ a, old = some a ∧ ∀ b, new = some b → SyncToken.order b a = .lt

theorem not_setBack_self (token : Option String) : ¬ SetBack token token := by
  rintro ⟨a, rfl, hnew⟩
  have hlt : SyncToken.order a a = .lt := hnew a rfl
  rw [SyncToken.order_self] at hlt
  cases hlt

/-- A token that may be missing sets back only if it is there. -/
theorem setBack_or_iff {old new : Option String} :
    SetBack old (new.or old) ↔ ∃ b, new = some b ∧ SetBack old (some b) := by
  cases new with
  | none => simpa using not_setBack_self old
  | some b => simp

/-- Whether a sync started from the token that is still there, and is not older. -/
structure ListSync.IsCurrent (x : ListSync) (token : Option String) : Prop where
  since_eq : x.since = token
  not_older : ∀ list, x.list = some list → ¬ SetBack x.since list.token

namespace Shelf

variable {s : Shelf} {kind other : TemplateKind}

@[simp] theorem token?_insertAll (s : Shelf) (kind other : TemplateKind)
    (es : List TemplateEntry) : (s.insertAll kind es).token? other = s.token? other := by
  induction es generalizing s with
  | nil => rfl
  | cons e rest ih => exact (ih (s.insert kind e)).trans (s.token?_insert kind other e)

theorem token?_take (s : Shelf) (kind : TemplateKind) (p : CatalogPage) :
    (s.take kind p).token? kind = p.token.or (s.token? kind) := by
  unfold take
  cases p.token with
  | none => simp
  | some token => simp

theorem token?_take_of_ne (h : kind ≠ other) (p : CatalogPage) :
    (s.take kind p).token? other = s.token? other := by
  unfold take
  cases p.token with
  | none => simp
  | some token => simp [h]

end Shelf

namespace Downloads

/-- An entry that is fetched leaves the shelf alone. -/
theorem shelf_fetch {σ : Type} (d : Downloads) (service : CatalogService σ) (kind : TemplateKind)
    (key : String) (state : σ) : (d.fetch service kind key state).2.1.shelf = d.shelf := by
  by_cases hallows : d.attempts.allows key = true
  · rw [fetch_of_allows hallows]
    exact Traffic.shelf_receive d key _
  · rw [fetch_of_spent (Bool.eq_false_iff.mpr hallows)]

end Downloads

namespace Syncs

variable {kind : TemplateKind} {t u : Syncs}
  {es : List SyncEvent} {e : SyncEvent}

theorem Run.single (h : Step t e u) : Run t [e] u := Run.concat .nil h

theorem Run.append {v : Syncs} {later : List SyncEvent} (h : Run t es u) (hlater : Run u later v) :
    Run t (es ++ later) v := by
  induction hlater with
  | nil => simpa using h
  | concat _ hstep ih => simpa using ih.concat hstep

/-- A list starts from the token of the shelf. -/
theorem listStart?_eq_some {token : String} {since : Option String}
    (starts : t.desk.downloads.listStart? kind token = some since) : since = t.token? kind := by
  unfold Downloads.listStart? at starts
  split at starts
  · exact (Option.some.inj starts).symm
  · cases starts

/-! ## One step -/

/-- Only a delivery changes tokens, and only the token of its kind. -/
theorem Step.token?_eq (h : Step t e u) (howner : e ≠ .restock) :
    u.token? kind = t.token? kind ∨
      ∃ x list, e = .deliver x list ∧ x.kind = kind ∧
        u.token? kind = list.token.or (t.token? kind) := by
  cases h with
  | request | come | fail => exact .inl rfl
  | aside kept => exact .inl (kept kind)
  | restock => exact absurd rfl howner
  | @deliver x earlier later list present came =>
    by_cases hkind : x.kind = kind
    · subst hkind
      exact .inr ⟨x, list, rfl, rfl, t.shelf.token?_take x.kind list⟩
    · exact .inl (t.shelf.token?_take_of_ne hkind list)

/-- A token goes back if and only if a list of its kind with an older one is delivered. -/
theorem Step.setBack_iff (h : Step t e u) (howner : e ≠ .restock) :
    SetBack (t.token? kind) (u.token? kind) ↔ ∃ x list b, e = .deliver x list ∧ x.kind = kind ∧
      list.token = some b ∧ SetBack (t.token? kind) (some b) := by
  constructor
  · intro hback
    have hcases : u.token? kind = t.token? kind ∨ _ := h.token?_eq howner
    rcases hcases with htoken | ⟨x, list, he, hkind, htoken⟩
    · rw [htoken] at hback
      exact absurd hback (not_setBack_self _)
    · rw [htoken] at hback
      obtain ⟨b, hb, hback⟩ := setBack_or_iff.mp hback
      exact ⟨x, list, b, he, hkind, hb, hback⟩
  · rintro ⟨x, list, b, rfl, rfl, hb, hback⟩
    have htoken : u.token? x.kind = list.token.or (t.token? x.kind) := by
      cases h with
      | deliver => exact t.shelf.token?_take x.kind list
    rw [htoken]
    exact setBack_or_iff.mpr ⟨b, hb, hback⟩

/-! ## One list at a time -/

/-- Whether an event keeps the lists of a kind in order: one is asked for when no other one is on
its way, none comes that is older than its start, and nobody else touches the shelf. -/
def IsOrderly (kind : TemplateKind) (t : Syncs) : SyncEvent → Prop
  | .request x => x.kind = kind → ∀ y ∈ t.outstanding, y.kind ≠ kind
  | .come x list => x.kind = kind → ¬ SetBack x.since list.token
  | .restock => False
  | _ => True

/-- At most one list of a kind is on its way, and it is current. -/
structure InOrder (kind : TemplateKind) (t : Syncs) : Prop where
  alone : t.outstanding.countP (·.kind = kind) ≤ 1
  current : ∀ x ∈ t.outstanding, x.kind = kind → x.IsCurrent (t.token? kind)

theorem InOrder.opening (kind : TemplateKind) (desk : Desk) : InOrder kind (opening desk) :=
  ⟨Nat.zero_le _, fun _ hx => absurd hx List.not_mem_nil⟩

theorem mem_of_present {x : ListSync} {earlier later : List ListSync}
    (present : t.outstanding = earlier ++ x :: later) : x ∈ t.outstanding := by
  rw [present]
  exact List.mem_append_right earlier List.mem_cons_self

/-- A sync that ends leaves the others in order, if the token stays or the sync was of the kind. -/
theorem InOrder.remove {x : ListSync} {earlier later : List ListSync} (h : InOrder kind t)
    (present : t.outstanding = earlier ++ x :: later) (hrest : u.outstanding = earlier ++ later)
    (htoken : x.kind = kind ∨ u.token? kind = t.token? kind) : InOrder kind u := by
  obtain ⟨halone, hcurrent⟩ := h
  rw [present, List.countP_append, List.countP_cons] at halone
  refine ⟨?_, fun y hy hkind => ?_⟩
  · rw [hrest, List.countP_append]
    omega
  · rw [hrest] at hy
    have hmem : y ∈ t.outstanding := by
      rw [present]
      exact (List.sublist_cons_self x later).append_left earlier |>.subset hy
    rcases htoken with hx | htoken
    · -- The sync that ended was the only one of the kind.
      have hpos : 0 < (earlier ++ later).countP (·.kind = kind) :=
        List.countP_pos_iff.mpr ⟨y, hy, by simpa using hkind⟩
      rw [List.countP_append] at hpos
      simp only [hx, decide_true, if_true] at halone
      omega
    · rw [htoken]
      exact hcurrent y hmem hkind

/-- A new list of the kind comes alone, and one of another kind does not matter. -/
theorem InOrder.request {other : TemplateKind} {since : Option String} (h : InOrder kind t)
    (hsince : since = t.token? other)
    (halone : other = kind → ∀ y ∈ t.outstanding, y.kind ≠ kind) :
    InOrder kind ⟨t.desk, t.next other since :: t.outstanding, t.requests + 1⟩ := by
  refine ⟨?_, fun y hy hykind => ?_⟩
  · rw [List.countP_cons]
    split
    case isTrue hkind =>
      have hnone : t.outstanding.countP (·.kind = kind) = 0 :=
        List.countP_eq_zero.mpr fun y hy => by
          simpa using halone (of_decide_eq_true hkind) y hy
      exact Nat.le_of_eq (congrArg (· + 1) hnone)
    case isFalse => exact h.alone
  · rcases List.mem_cons.mp hy with rfl | hy
    · subst hykind
      exact ⟨hsince, fun _ hlist => by cases hlist⟩
    · exact h.current y hy hykind

/-- A list of the kind that comes is not older than its start. -/
theorem InOrder.come {x : ListSync} {earlier later : List ListSync} {list : CatalogPage}
    (h : InOrder kind t) (present : t.outstanding = earlier ++ x :: later)
    (hnot : x.kind = kind → ¬ SetBack x.since list.token) :
    InOrder kind { t with outstanding := earlier ++ x.withList list :: later } := by
  obtain ⟨halone, hcurrent⟩ := h
  have hx := hcurrent x (mem_of_present present)
  rw [present] at halone hcurrent
  refine ⟨?_, fun y hy hykind => ?_⟩
  · rw [List.countP_append, List.countP_cons] at halone ⊢
    exact halone
  · rcases List.mem_append.mp hy with hy | hy
    · exact hcurrent y (List.mem_append_left _ hy) hykind
    rcases List.mem_cons.mp hy with rfl | hy
    · refine ⟨(hx hykind).since_eq, fun _ hlist => ?_⟩
      cases hlist
      exact hnot hykind
    · exact hcurrent y (List.mem_append_right _ (List.mem_cons_of_mem _ hy)) hykind

theorem InOrder.step (h : InOrder kind t) (hstep : Step t e u) (horderly : IsOrderly kind t e) :
    InOrder kind u := by
  cases hstep with
  | request starts => exact h.request (listStart?_eq_some starts) horderly
  | come present waits comes => exact h.come present horderly
  | fail present waits => exact h.remove present rfl (.inr rfl)
  | @deliver x earlier later list present came =>
    refine h.remove present rfl ?_
    by_cases hkind : x.kind = kind
    · exact .inl hkind
    · exact .inr (t.shelf.token?_take_of_ne hkind list)
  | aside kept =>
    refine ⟨h.alone, fun x hx hkind => ?_⟩
    have htoken := h.current x hx hkind
    rwa [← kept kind] at htoken
  | restock => exact absurd horderly not_false

/-- A run whose events all keep the lists of a kind in order. -/
inductive OrderlyRun (kind : TemplateKind) : Syncs → Syncs → Prop where
  | nil {t : Syncs} : OrderlyRun kind t t
  | concat {t u v : Syncs} {e : SyncEvent} :
      OrderlyRun kind t u → Step u e v → IsOrderly kind u e → OrderlyRun kind t v

theorem InOrder.run (h : InOrder kind t) (hrun : OrderlyRun kind t u) : InOrder kind u := by
  induction hrun with
  | nil => exact h
  | concat _ hstep horderly ih => exact ih.step hstep horderly

/-- While the lists of a kind are in order, no step sets its token back. -/
theorem InOrder.not_setBack (h : InOrder kind t) (hstep : Step t e u)
    (howner : e ≠ .restock) : ¬ SetBack (t.token? kind) (u.token? kind) := by
  rw [hstep.setBack_iff howner]
  rintro ⟨x, list, b, rfl, hkind, hb, hback⟩
  cases hstep with
  | deliver present came =>
    have hcurrent := h.current x (mem_of_present present) hkind
    have hnot := hcurrent.not_older list came
    rw [hcurrent.since_eq, hb] at hnot
    exact hnot hback

/-! ## Old lists -/

/-- A list that comes can be delivered next. -/
theorem exists_delivery {token : String} {since : Option String} {p : CatalogPage}
    (starts : t.desk.downloads.listStart? kind token = some since)
    (hp : p.ComesSince kind since) :
    ∃ (x : ListSync) (u v : Syncs), Run t [.request x, .come x p] u ∧
      Step u (.deliver (x.withList p) p) v ∧ u.shelf = t.shelf ∧
      v.shelf = t.shelf.take kind p := by
  let x : ListSync := t.next kind since
  let state (x : ListSync) : Syncs := ⟨t.desk, x :: t.outstanding, t.requests + 1⟩
  have hrequest : Step t (.request x) (state x) := .request starts
  have hcome : Step (state x) (.come x p) (state (x.withList p)) :=
    @Step.come (state x) x [] t.outstanding p rfl rfl hp
  have hdeliver : Step (state (x.withList p)) (.deliver (x.withList p) p)
      ⟨t.desk.deliver (.list kind p), t.outstanding, t.requests + 1⟩ :=
    @Step.deliver (state (x.withList p)) (x.withList p) [] t.outstanding p rfl rfl
  exact ⟨x, _, _, (Run.single hrequest).concat hcome, hdeliver, rfl, rfl⟩

/-- Of two lists that were asked for at one token, the first one can be delivered last. -/
theorem exists_overtaken {token : String} {since : Option String} {p q : CatalogPage}
    (starts : t.desk.downloads.listStart? kind token = some since)
    (hp : p.ComesSince kind since) (hq : q.ComesSince kind since) :
    ∃ (x y : ListSync) (u v : Syncs), x.number < y.number ∧
      Run t [.request x, .request y, .come x p, .come y q, .deliver (y.withList q) q] u ∧
      Step u (.deliver (x.withList p) p) v ∧ u.shelf = t.shelf.take kind q ∧
      v.shelf = (t.shelf.take kind q).take kind p := by
  let x : ListSync := ⟨t.requests, kind, since, none⟩
  let y : ListSync := ⟨t.requests + 1, kind, since, none⟩
  let state (desk : Desk) (outstanding : List ListSync) : Syncs :=
    ⟨desk, outstanding ++ t.outstanding, t.requests + 2⟩
  let overtaken : Desk := t.desk.deliver (.list kind q)
  have hfirst : Step t (.request x) ⟨t.desk, x :: t.outstanding, t.requests + 1⟩ := .request starts
  have hsecond : Step ⟨t.desk, x :: t.outstanding, t.requests + 1⟩ (.request y)
      (state t.desk [y, x]) := .request starts
  have hcome : Step (state t.desk [y, x]) (.come x p) (state t.desk [y, x.withList p]) :=
    @Step.come (state t.desk [y, x]) x [y] t.outstanding p rfl rfl hp
  have hovertake : Step (state t.desk [y, x.withList p]) (.come y q)
      (state t.desk [y.withList q, x.withList p]) :=
    @Step.come (state t.desk [y, x.withList p]) y [] (x.withList p :: t.outstanding) q rfl rfl hq
  have hnew : Step (state t.desk [y.withList q, x.withList p]) (.deliver (y.withList q) q)
      (state overtaken [x.withList p]) :=
    @Step.deliver (state t.desk [y.withList q, x.withList p]) (y.withList q) []
      (x.withList p :: t.outstanding) q rfl rfl
  have hold : Step (state overtaken [x.withList p]) (.deliver (x.withList p) p)
      (state (overtaken.deliver (.list kind p)) []) :=
    @Step.deliver (state overtaken [x.withList p]) (x.withList p) [] t.outstanding p rfl rfl
  exact ⟨x, y, _, _, Nat.lt_succ_self _,
    ((((Run.single hfirst).concat hsecond).concat hcome).concat hovertake).concat hnew, hold, rfl,
    rfl⟩

end Syncs

/-! ## Sessions -/

/-- What is known of a sync in a session: what it started from, or the list that has come. -/
def ListSync.view (x : ListSync) : TemplateKind × (Option String ⊕ CatalogPage) :=
  (x.kind, match x.list with
    | none => .inl x.since
    | some list => .inr list)

def CatalogTask.sync? : CatalogTask → Option (TemplateKind × (Option String ⊕ CatalogPage))
  | .entry _ _ => none
  | .list kind since => some (kind, .inl since)

def Delivery.sync? : Delivery → Option (TemplateKind × (Option String ⊕ CatalogPage))
  | .entry _ _ _ => none
  | .list kind page => some (kind, .inr page)

/-- Tasks that have not run and deliveries that wait are the lists on their way. -/
structure Syncing (tasks : List CatalogTask) (waiting : List Delivery) (desk : Desk)
    (t : Syncs) : Prop where
  desk_eq : t.desk = desk
  views : (t.outstanding.map ListSync.view).Perm
    (tasks.filterMap CatalogTask.sync? ++ waiting.filterMap Delivery.sync?)

namespace Syncing

variable {tasks : List CatalogTask} {waiting : List Delivery} {desk : Desk} {t : Syncs}
  {kind : TemplateKind} {key : String} {since : Option String} {list : CatalogPage}

theorem perm {others : List Delivery} (h : Syncing tasks waiting desk t)
    (hperm : waiting.Perm others) : Syncing tasks others desk t :=
  ⟨h.desk_eq, h.views.trans ((hperm.filterMap _).append_left _)⟩

/-- The desk changes, but no token. -/
theorem aside (h : Syncing tasks waiting desk t) (other : Desk)
    (kept : ∀ kind, other.downloads.shelf.token? kind = desk.downloads.shelf.token? kind) :
    ∃ es u, Syncs.Run t es u ∧ Syncing tasks waiting other u := by
  obtain ⟨rfl, hviews⟩ := h
  exact ⟨_, _, .single (.aside kept), rfl, hviews⟩

/-- The owner of the shelf changes it. -/
theorem restock (h : Syncing tasks waiting desk t) (other : Desk) :
    ∃ es u, Syncs.Run t es u ∧ Syncing tasks waiting other u :=
  ⟨_, _, .single (.restock other), rfl, h.views⟩

/-- A list is asked for. -/
theorem request {token : String} (h : Syncing tasks waiting desk t)
    (starts : desk.downloads.listStart? kind token = some since) :
    ∃ es u, Syncs.Run t es u ∧ Syncing (tasks ++ [.list kind since]) waiting desk u := by
  obtain ⟨rfl, hviews⟩ := h
  refine ⟨_, _, .single (.request starts), rfl, ?_⟩
  show ((kind, Sum.inl since) :: t.outstanding.map ListSync.view).Perm _
  rw [List.filterMap_append, List.append_assoc]
  exact (hviews.cons _).trans List.perm_middle.symm

/-- An entry is asked for, which is no list. -/
theorem requestEntry {d : Downloads} (h : Syncing tasks waiting desk t)
    (starts : desk.downloads.request? kind key = some d) :
    ∃ es u, Syncs.Run t es u ∧
      Syncing (tasks ++ [.entry kind key]) waiting { desk with downloads := d } u := by
  obtain ⟨-, -, rfl⟩ := Downloads.request?_eq_some_iff.mp starts
  have hnone : [CatalogTask.entry kind key].filterMap CatalogTask.sync? = [] := rfl
  have hsame : Syncing (tasks ++ [.entry kind key]) waiting desk t := by
    refine ⟨h.desk_eq, ?_⟩
    rw [List.filterMap_append, hnone, List.append_nil]
    exact h.views
  exact hsame.aside _ fun _ => rfl

theorem exists_present (h : Syncing (.list kind since :: tasks) waiting desk t) :
    ∃ earlier x later, t.outstanding = earlier ++ x :: later ∧ x.kind = kind ∧ x.list = none ∧
      x.since = since ∧ ((earlier ++ later).map ListSync.view).Perm
        (tasks.filterMap CatalogTask.sync? ++ waiting.filterMap Delivery.sync?) := by
  obtain ⟨earlier, x, later, present, hview, hrest⟩ := exists_of_map_perm_cons h.views
  obtain ⟨number, kind, since, list⟩ := x
  cases list with
  | some list => cases hview
  | none =>
    cases hview
    exact ⟨earlier, _, later, present, rfl, rfl, rfl, hrest⟩

/-- A list fails to come. -/
theorem fail (h : Syncing (.list kind since :: tasks) waiting desk t) :
    ∃ es u, Syncs.Run t es u ∧ Syncing tasks waiting desk u := by
  obtain ⟨earlier, x, later, present, -, waits, -, hrest⟩ := h.exists_present
  exact ⟨_, _, .single (.fail present waits), h.desk_eq, hrest⟩

/-- A list comes. -/
theorem come (h : Syncing (.list kind since :: tasks) waiting desk t)
    (comes : list.ComesSince kind since) :
    ∃ es u, Syncs.Run t es u ∧ Syncing tasks (.list kind list :: waiting) desk u := by
  obtain ⟨earlier, x, later, present, rfl, waits, rfl, hrest⟩ := h.exists_present
  refine ⟨_, _, .single (.come present waits comes), h.desk_eq, ?_⟩
  have hviews := hrest.cons (x.kind, Sum.inr list)
  rw [List.map_append] at hviews
  show ((earlier ++ x.withList list :: later).map ListSync.view).Perm _
  rw [List.map_append, List.map_cons]
  exact (List.perm_middle.trans hviews).trans List.perm_middle.symm

/-- The first delivery that waits is made. -/
theorem deliver {d : Delivery} (h : Syncing tasks (d :: waiting) desk t) :
    ∃ es u, Syncs.Run t es u ∧ Syncing tasks waiting (desk.deliver d) u := by
  cases d with
  | entry kind key result =>
    have hrest : Syncing tasks waiting desk t := ⟨h.desk_eq, h.views⟩
    refine hrest.aside _ fun other => ?_
    cases result with
    | ok e => exact desk.downloads.shelf.token?_insert kind other e
    | error f => rfl
  | list kind list =>
    obtain ⟨rfl, hviews⟩ := h
    obtain ⟨earlier, x, later, present, hview, hrest⟩ :=
      exists_of_map_perm_cons (hviews.trans List.perm_middle)
    obtain ⟨number, kind, since, came⟩ := x
    cases came with
    | none => cases hview
    | some came =>
      cases hview
      exact ⟨_, _, .single (.deliver present rfl), rfl, hrest⟩

/-- An entry that is fetched changes no token. -/
theorem fetchEntry {σ : Type} (h : Syncing (.entry kind key :: tasks) waiting desk t)
    (service : CatalogService σ) (state : σ) :
    ∃ es u, Syncs.Run t es u ∧ Syncing tasks
      (.entry kind key (desk.downloads.fetch service kind key state).1 :: waiting)
      { desk with downloads := (desk.downloads.fetch service kind key state).2.1 } u := by
  have hrest : Syncing tasks
      (.entry kind key (desk.downloads.fetch service kind key state).1 :: waiting) desk t :=
    ⟨h.desk_eq, h.views⟩
  refine hrest.aside _ fun other => ?_
  rw [Downloads.shelf_fetch]

/-- What happens besides downloads keeps all tokens, or is the owner's doing. -/
theorem apply (h : Syncing tasks waiting desk t) (a : Aside) :
    ∃ es u, Syncs.Run t es u ∧ Syncing tasks waiting (a.apply desk) u := by
  cases a with
  | resolve kind p style =>
    refine h.aside _ fun other => ?_
    show (desk.downloads.resolve kind p style).2.shelf.token? other = _
    rcases desk.downloads.resolve_cases kind p style with hcase | hcase
    · rw [hcase]
    · rw [hcase]
      rfl
  | list kind page => exact h.restock _
  | restock shelf => exact h.restock _
  | charge key => exact h.aside _ fun _ => rfl
  | reset key => exact h.aside _ fun _ => rfl

end Syncing

namespace Session

variable {σ : Type} {s : Session σ}

/-- What a session does with its lists, some run of syncs does, too. -/
theorem isMaintained_syncing (start : Syncs) : IsMaintained σ fun tasks waiting desk =>
    ∃ past t, Syncs.Run start past t ∧ Syncing tasks waiting desk t where
  perm := fun ⟨past, t, hrun, ht⟩ hperm => ⟨past, t, hrun, ht.perm hperm⟩
  requestEntry := fun ⟨past, t, hrun, ht⟩ starts => by
    obtain ⟨es, u, hmore, hu⟩ := ht.requestEntry starts
    exact ⟨past ++ es, u, hrun.append hmore, hu⟩
  requestList := fun ⟨past, t, hrun, ht⟩ starts => by
    obtain ⟨es, u, hmore, hu⟩ := ht.request starts
    exact ⟨past ++ es, u, hrun.append hmore, hu⟩
  fetch service state := fun ⟨past, t, hrun, ht⟩ => by
    obtain ⟨es, u, hmore, hu⟩ := ht.fetchEntry service state
    exact ⟨past ++ es, u, hrun.append hmore, hu⟩
  come service state := fun ⟨past, t, hrun, ht⟩ hlist => by
    obtain ⟨es, u, hmore, hu⟩ := ht.come ⟨_, service, state, hlist⟩
    exact ⟨past ++ es, u, hrun.append hmore, hu⟩
  fail := fun ⟨past, t, hrun, ht⟩ => by
    obtain ⟨es, u, hmore, hu⟩ := ht.fail
    exact ⟨past ++ es, u, hrun.append hmore, hu⟩
  deliver := fun ⟨past, t, hrun, ht⟩ => by
    obtain ⟨es, u, hmore, hu⟩ := ht.deliver
    exact ⟨past ++ es, u, hrun.append hmore, hu⟩
  aside a := fun ⟨past, t, hrun, ht⟩ => by
    obtain ⟨es, u, hmore, hu⟩ := ht.apply a
    exact ⟨past ++ es, u, hrun.append hmore, hu⟩

/-- Whatever a session does to its desk, some run of syncs does, too. -/
theorem exists_syncs {service : CatalogService σ} {state : σ} {shelf : Shelf}
    {attempts : Attempts} (h : Reachable service state shelf attempts s) :
    ∃ past t, Syncs.Run (.opening ⟨⟨shelf, attempts, []⟩, 0⟩) past t ∧ t.desk = s.desk := by
  let start : Syncs := .opening ⟨⟨shelf, attempts, []⟩, 0⟩
  have hstart : Syncing [] [] ⟨⟨shelf, attempts, []⟩, 0⟩ start := ⟨rfl, .nil⟩
  have hmaintained : IsMaintained σ _ := isMaintained_syncing start
  obtain ⟨-, _, -, past, t, hrun, ht⟩ := hmaintained.satisfies ⟨[], _, .nil, hstart⟩ h
  exact ⟨past, t, hrun, ht.desk_eq⟩

end Session

namespace Syncs

/-- A service that answers with one page brings the list that the page makes up. -/
theorem comesSince_of_readPage {text : String} {p : CatalogPage} (h : readPage (.ok text) = .ok p)
    (hlast : p.hasMore = false) (kind : TemplateKind) (since : Option String) :
    (⟨p.entries, p.token.or since, false⟩ : CatalogPage).ComesSince kind since := by
  let service : CatalogService Unit :=
    ⟨fun _ key s => (.error (.notFound key), s), fun _ _ s => (.ok text, s)⟩
  refine ⟨Unit, service, (), ?_⟩
  rw [CatalogService.fetchAll, CatalogService.follow]
  simp only [service, h, hlast, if_true, List.nil_append]

/-- The token of a kind goes back in a step if and only if the step delivers a list of that kind
with an older token. It never does while the lists of the kind come one at a time and none is older
than its start. Any list that comes since the token of the shelf can be delivered, even if it is
older; and of two lists that come since the same token, the one that was asked for first can be
delivered last, which puts its templates and its token over those of the other one. All this is so
of every session, whose lists are among those of some run. -/
theorem token_set_back (kind : TemplateKind) :
    (∀ t e u, Step t e u → e ≠ .restock →
      (SetBack (t.token? kind) (u.token? kind) ↔ ∃ x list b, e = .deliver x list ∧ x.kind = kind ∧
        list.token = some b ∧ SetBack (t.token? kind) (some b))) ∧
    (∀ desk t e u, OrderlyRun kind (opening desk) t → Step t e u → e ≠ .restock →
      ¬ SetBack (t.token? kind) (u.token? kind)) ∧
    (∀ t token since p a, t.desk.downloads.listStart? kind token = some since →
      p.ComesSince kind since → p.token = some a →
      (∃ (x : ListSync) (u v : Syncs), Run t [.request x, .come x p] u ∧
        Step u (.deliver (x.withList p) p) v ∧ u.token? kind = since ∧ v.token? kind = some a ∧
        v.shelf = t.shelf.take kind p) ∧
      ∀ q b, q.ComesSince kind since → q.token = some b →
        ∃ (x y : ListSync) (u v : Syncs), x.number < y.number ∧
          Run t [.request x, .request y, .come x p, .come y q, .deliver (y.withList q) q] u ∧
          Step u (.deliver (x.withList p) p) v ∧ u.token? kind = some b ∧
          v.token? kind = some a ∧ v.shelf = (t.shelf.take kind q).take kind p) ∧
    (∀ (σ : Type) (service : CatalogService σ) (state : σ) (shelf : Shelf) (attempts : Attempts)
      (s : Session σ), Session.Reachable service state shelf attempts s →
      ∃ es t, Run (opening ⟨⟨shelf, attempts, []⟩, 0⟩) es t ∧ t.desk = s.desk) := by
  refine ⟨fun t e u hstep howner => hstep.setBack_iff howner,
    fun desk t e u hrun hstep howner => ?_, fun t token since p a starts hp ha => ⟨?_, ?_⟩, ?_⟩
  · exact ((InOrder.opening kind desk).run hrun).not_setBack hstep howner
  · obtain ⟨x, u, v, hrun, hstep, hu, hv⟩ := exists_delivery starts hp
    refine ⟨x, u, v, hrun, hstep, ?_, ?_, hv⟩
    · rw [token?, hu]
      exact (listStart?_eq_some starts).symm
    · rw [token?, hv, Shelf.token?_take, ha]
      rfl
  · intro q b hq hb
    obtain ⟨x, y, u, v, hnumber, hrun, hstep, hu, hv⟩ := exists_overtaken starts hp hq
    refine ⟨x, y, u, v, hnumber, hrun, hstep, ?_, ?_, hv⟩
    · rw [token?, hu, Shelf.token?_take, hb]
      rfl
    · rw [token?, hv, Shelf.token?_take, ha]
      rfl
  · intro σ service state shelf attempts s hs
    exact Session.exists_syncs hs

/-- Of two lists of an empty shelf that bring the tokens 5 and 7, the older one ends up on it. -/
theorem token_set_back_of_overtaken :
    ∃ (x y : ListSync) (p q : CatalogPage) (u v : Syncs), x.number < y.number ∧
      Run (opening ⟨.ofLimit 1, 0⟩) [.request x, .request y, .come x p, .come y q,
        .deliver (y.withList q) q] u ∧
      Step u (.deliver (x.withList p) p) v ∧ u.token? .message = some "7" ∧
      v.token? .message = some "5" ∧ SetBack (u.token? .message) (v.token? .message) := by
  have htokens := token_set_back .message
  have hold : readPage (.ok "\x7b\"token\":\"5\"\x7d") = .ok ⟨[], some "5", false⟩ := rfl
  have hnew : readPage (.ok "\x7b\"token\":\"7\"\x7d") = .ok ⟨[], some "7", false⟩ := rfl
  have hp := comesSince_of_readPage hold rfl .message none
  have hq := comesSince_of_readPage hnew rfl .message none
  obtain ⟨-, hovertaken⟩ := htokens.2.2.1 (opening ⟨.ofLimit 1, 0⟩) "7" none _ "5" rfl hp rfl
  obtain ⟨x, y, u, v, hnumber, hrun, hstep, hu, hv, -⟩ := hovertaken _ "7" hq rfl
  have holder : SetBack (some "7") (some "5") := ⟨"7", rfl, fun _ hb => by cases hb; rfl⟩
  refine ⟨x, y, _, _, u, v, hnumber, hrun, hstep, hu, hv, ?_⟩
  rw [hu, hv]
  exact holder

end Syncs
end MessageCard
