import Mathlib.Data.List.Nodup
import MessageCard.Proofs.Catalog.Traffic

/-!
# Every download is accounted for

Downloads are numbered in the order of their requests. In every run, however requests, answers and
deliveries interleave, the downloads on their way and the delivered ones make up all numbers, each
once, and the downloads that are running are those on their way.
-/
namespace MessageCard

namespace Event

/-- Whether something besides a download may have brought entries. -/
def brings : Event → Bool
  | .aside (.list _ _) => true
  | .aside (.restock _) => true
  | _ => false

theorem brings_of_delivered {e : Event} {number : Nat} (h : e.delivered? = some number) :
    e.brings = false := by
  cases e with
  | deliver x missed => rfl
  | request kind key => cases h
  | ask x => cases h
  | refuse x => cases h
  | answer x a => cases h
  | aside a => cases h

end Event

/-- The number and the target of a download. -/
def Transfer.entry (x : Transfer) : Nat × TemplateKind × String := (x.number, x.target)

/-- Whether all entries of a shelf are entries of another one. -/
def Shelf.IsWithin (s r : Shelf) : Prop :=
  ∀ kind key e, s.get? kind key = some e → r.get? kind key = some e

namespace Traffic

/-- What the requests of a run were for, the first one first. -/
def requested (es : List Event) : List (TemplateKind × String) := es.filterMap Event.requested?

/-- The numbers of the downloads that were delivered in a run, the first one first. -/
def delivered (es : List Event) : List Nat := es.filterMap Event.delivered?

/-- The download with a number was asked for, for some target, and is not delivered. -/
def Outstanding (es : List Event) (number : Nat) (target : TemplateKind × String) : Prop :=
  (requested es)[number]? = some target ∧ number ∉ delivered es

/-- The downloads on their way account for the events so far. -/
structure Books (es : List Event) (t : Traffic) : Prop where
  requests_eq : t.requests = (requested es).length
  numbers : (t.transfers.map (·.number) ++ delivered es).Perm (List.range t.requests)
  targets : ∀ x ∈ t.transfers, (requested es)[x.number]? = some x.target
  running : t.downloads.running.Perm (t.transfers.map Transfer.target)
  nodup : (t.transfers.map Transfer.target).Nodup

variable {t u : Traffic} {e : Event} {es past : List Event}

@[simp] theorem requested_append (es later : List Event) :
    requested (es ++ later) = requested es ++ requested later := List.filterMap_append

@[simp] theorem delivered_append (es later : List Event) :
    delivered (es ++ later) = delivered es ++ delivered later := List.filterMap_append

theorem requested_concat_of_none (h : e.requested? = none) (es : List Event) :
    requested (es ++ [e]) = requested es := by
  rw [requested_append, requested, requested, List.filterMap_cons_none h, List.filterMap_nil,
    List.append_nil]

theorem delivered_concat_of_none (h : e.delivered? = none) (es : List Event) :
    delivered (es ++ [e]) = delivered es := by
  rw [delivered_append, delivered, delivered, List.filterMap_cons_none h, List.filterMap_nil,
    List.append_nil]

theorem map_fst_entry (xs : List Transfer) :
    (xs.map Transfer.entry).map Prod.fst = xs.map (·.number) := by
  rw [List.map_map]
  rfl

theorem map_snd_entry (xs : List Transfer) :
    (xs.map Transfer.entry).map Prod.snd = xs.map Transfer.target := by
  rw [List.map_map]
  rfl

/-! ## The books are kept -/

theorem Books.opening (shelf : Shelf) (attempts : Attempts) :
    Books [] (opening shelf attempts) where
  requests_eq := rfl
  numbers := .nil
  targets _ hx := absurd hx List.not_mem_nil
  running := .nil
  nodup := .nil

/-- A step that neither starts nor delivers a download leaves the books as they are. -/
theorem Books.keep (h : Books es t) (hrequested : e.requested? = none)
    (hdelivered : e.delivered? = none) (hrequests : u.requests = t.requests)
    (hrunning : u.downloads.running = t.downloads.running)
    (hentries : u.transfers.map Transfer.entry = t.transfers.map Transfer.entry) :
    Books (es ++ [e]) u := by
  have hnumbers : u.transfers.map (·.number) = t.transfers.map (·.number) := by
    rw [← map_fst_entry, hentries, map_fst_entry]
  have htargets : u.transfers.map Transfer.target = t.transfers.map Transfer.target := by
    rw [← map_snd_entry, hentries, map_snd_entry]
  have hasked := requested_concat_of_none hrequested es
  have hdone := delivered_concat_of_none hdelivered es
  refine ⟨?_, ?_, fun x hx => ?_, ?_, ?_⟩
  · rw [hasked, hrequests, h.requests_eq]
  · rw [hdone, hrequests, hnumbers]
    exact h.numbers
  · have hmem : x.entry ∈ t.transfers.map Transfer.entry := hentries ▸ List.mem_map_of_mem hx
    obtain ⟨y, hy, hxy⟩ := List.mem_map.mp hmem
    obtain ⟨hnumber, htarget⟩ := Prod.mk.inj hxy
    rw [hasked, ← hnumber, ← htarget]
    exact h.targets y hy
  · rw [hrunning, htargets]
    exact h.running
  · rw [htargets]
    exact h.nodup

/-- A download that goes on leaves the books as they are. -/
theorem Books.move (h : Books es t) {x : Transfer} {phase : Phase} {earlier later : List Transfer}
    (present : t.transfers = earlier ++ x :: later) (hrequested : e.requested? = none)
    (hdelivered : e.delivered? = none) (hrequests : u.requests = t.requests)
    (hrunning : u.downloads.running = t.downloads.running)
    (htransfers : u.transfers = earlier ++ x.inPhase phase :: later) : Books (es ++ [e]) u := by
  refine h.keep hrequested hdelivered hrequests hrunning ?_
  rw [htransfers, present, List.map_append, List.map_append, List.map_cons, List.map_cons]
  rfl

theorem running_receive (d : Downloads) (key : String) (a : CatalogAnswer) :
    (d.receive key a).2.running = d.running := by
  cases h : readEntry a with
  | ok entry => rw [Downloads.receive_of_ok h]
  | error f => rw [Downloads.receive_of_error h]

theorem Books.request (h : Books es t) {kind : TemplateKind} {key : String} {d : Downloads}
    (starts : t.downloads.request? kind key = some d) :
    Books (es ++ [.request kind key]) ((t.start kind key).withDownloads d) := by
  obtain ⟨-, hfree, rfl⟩ := Downloads.request?_eq_some_iff.mp starts
  have hasked : requested (es ++ [.request kind key]) = requested es ++ [(kind, key)] :=
    requested_append es _
  have hdone : delivered (es ++ [.request kind key]) = delivered es :=
    delivered_concat_of_none rfl es
  refine ⟨?_, ?_, fun x hx => ?_, ?_, ?_⟩
  · rw [hasked, List.length_append, ← h.requests_eq]
    rfl
  · rw [hdone]
    show (t.requests :: (t.transfers.map (·.number) ++ delivered es)).Perm
      (List.range (t.requests + 1))
    rw [List.range_succ]
    exact (h.numbers.cons t.requests).trans (List.perm_append_singleton _ _).symm
  · rw [hasked]
    rcases List.mem_cons.mp hx with rfl | hx
    · rw [h.requests_eq, List.getElem?_concat_length]
      rfl
    · have htarget := h.targets x hx
      rw [List.getElem?_append_left (List.getElem?_eq_some_iff.mp htarget).1]
      exact htarget
  · exact h.running.cons _
  · exact List.nodup_cons.mpr ⟨fun hmem => hfree (h.running.symm.subset hmem), h.nodup⟩

theorem Books.deliver (h : Books es t) {x : Transfer} {missed : Bool}
    {result : Except FetchError TemplateEntry} {earlier later : List Transfer}
    (present : t.transfers = earlier ++ x :: later) :
    Books (es ++ [.deliver x missed])
      { t.deliver x result with transfers := earlier ++ later } := by
  have hasked : requested (es ++ [.deliver x missed]) = requested es :=
    requested_concat_of_none rfl es
  have hdone : delivered (es ++ [.deliver x missed]) = delivered es ++ [x.number] :=
    delivered_append es _
  have hsplit : t.transfers.Perm (x :: (earlier ++ later)) := present ▸ List.perm_middle
  have htargets := hsplit.map Transfer.target
  refine ⟨?_, ?_, fun y hy => ?_, ?_, ?_⟩
  · rw [hasked, ← h.requests_eq]
    rfl
  -- The number moves from the downloads on their way to the delivered ones.
  · rw [hdone, ← List.append_assoc]
    have hnumbers := ((hsplit.map (·.number)).append_right (delivered es)).symm.trans h.numbers
    exact List.perm_append_comm.trans hnumbers
  · rw [hasked]
    exact h.targets y (hsplit.symm.subset (List.mem_cons_of_mem _ hy))
  · have herase := (h.running.trans htargets).erase x.target
    rwa [List.map_cons, List.erase_cons_head] at herase
  · exact (List.nodup_cons.mp (htargets.nodup_iff.mp h.nodup)).2

theorem Books.step (h : Books es t) (hstep : Step t e u) : Books (es ++ [e]) u := by
  cases hstep with
  | request starts => exact h.request starts
  | ask present started allowed => exact h.move present rfl rfl rfl rfl rfl
  | refuse present started spent => exact h.move present rfl rfl rfl rfl rfl
  | answer present asking a => exact h.move present rfl rfl rfl (running_receive _ _ _) rfl
  | deliver present finished => exact h.deliver present
  | aside a => exact h.keep rfl rfl rfl (a.running_apply t.desk) rfl

theorem books (h : Reachable past t) : Books past t := by
  obtain ⟨shelf, attempts, hrun⟩ := h
  induction hrun with
  | nil => exact .opening shelf attempts
  | concat hrun hstep ih => exact ih.step hstep

/-! ## What the books say -/

theorem Books.nodup_numbers (h : Books es t) :
    (t.transfers.map (·.number) ++ delivered es).Nodup :=
  h.numbers.nodup_iff.mpr List.nodup_range

/-- The outstanding downloads are those on their way. -/
theorem Books.outstanding_iff (h : Books es t) {number : Nat} {target : TemplateKind × String} :
    Outstanding es number target ↔ ∃ x ∈ t.transfers, x.number = number ∧ x.target = target := by
  constructor
  · rintro ⟨hasked, hopen⟩
    have hlt : number < (requested es).length := (List.getElem?_eq_some_iff.mp hasked).1
    have hmem : number ∈ t.transfers.map (·.number) ++ delivered es := by
      refine h.numbers.symm.subset (List.mem_range.mpr ?_)
      rwa [h.requests_eq]
    rcases List.mem_append.mp hmem with hmem | hmem
    · obtain ⟨x, hx, rfl⟩ := List.mem_map.mp hmem
      exact ⟨x, hx, rfl, Option.some.inj ((h.targets x hx).symm.trans hasked)⟩
    · exact absurd hmem hopen
  · rintro ⟨x, hx, rfl, rfl⟩
    refine ⟨h.targets x hx, fun hdone => ?_⟩
    have hdisjoint := (List.nodup_append.mp h.nodup_numbers).2.2
    exact hdisjoint x.number (List.mem_map_of_mem hx) x.number hdone rfl

theorem Books.mem_running_iff (h : Books es t) {target : TemplateKind × String} :
    target ∈ t.downloads.running ↔ ∃ number, Outstanding es number target := by
  rw [h.running.mem_iff, List.mem_map]
  simp only [h.outstanding_iff]
  constructor
  · rintro ⟨x, hx, rfl⟩
    exact ⟨x.number, x, hx, rfl, rfl⟩
  · rintro ⟨number, x, hx, -, rfl⟩
    exact ⟨x, hx, rfl⟩

theorem Books.isRunning_iff (h : Books es t) {kind : TemplateKind} {key : String} :
    t.downloads.isRunning kind key = true ↔ ∃ number, Outstanding es number (kind, key) :=
  List.contains_iff_mem.trans h.mem_running_iff

/-- No two downloads of a target are on their way. -/
theorem Books.eq_of_target_eq (h : Books es t) {x y : Transfer} (hx : x ∈ t.transfers)
    (hy : y ∈ t.transfers) (htarget : x.target = y.target) : x = y :=
  List.inj_on_of_nodup_map h.nodup hx hy htarget

theorem Books.running_eq_nil_iff (h : Books es t) :
    t.downloads.running = [] ↔ t.transfers = [] := by
  rw [← List.length_eq_zero_iff, h.running.length_eq, List.length_map, List.length_eq_zero_iff]

/-- When nothing is on its way, every download has been delivered once. -/
theorem Books.perm_delivered (h : Books es t) (hdone : t.transfers = []) :
    (delivered es).Perm (List.range (requested es).length) := by
  have hnumbers := h.numbers
  rwa [hdone, List.map_nil, List.nil_append, h.requests_eq] at hnumbers

/-! ## What a delivery does -/

/-- A step signals once if it delivers, and else not at all. -/
theorem Step.reloads_eq (h : Step t e u) (hbrings : e.brings = false) :
    u.desk.reloads = t.desk.reloads + if e.delivered?.isSome then 1 else 0 := by
  cases h with
  | request starts => rfl
  | ask present started allowed => rfl
  | refuse present started spent => rfl
  | answer present asking a => rfl
  | deliver present finished => rfl
  | aside a =>
    cases a with
    | resolve kind p s => rfl
    | list kind page => cases hbrings
    | restock shelf => cases hbrings
    | charge key => rfl
    | reset key => rfl

/-- A run without lists signals once for each delivery. -/
theorem Run.reloads_eq (h : Run t es u) (hbrings : ∀ e ∈ es, e.brings = false) :
    u.desk.reloads = t.desk.reloads + (delivered es).length := by
  induction h with
  | nil => rfl
  | @concat v w es e hrun hstep ih =>
    have hbefore := ih fun e he => hbrings e (List.mem_append_left _ he)
    have hsignal := hstep.reloads_eq (hbrings e List.mem_concat_self)
    have hlength : (delivered [e]).length = if e.delivered?.isSome then 1 else 0 := by
      cases h : e.delivered? <;> simp [delivered, h]
    rw [delivered_append, List.length_append, hlength]
    omega

theorem shelf_receive (d : Downloads) (key : String) (a : CatalogAnswer) :
    (d.receive key a).2.shelf = d.shelf := by
  cases h : readEntry a with
  | ok entry => rw [Downloads.receive_of_ok h]
  | error f => rw [Downloads.receive_of_error h]

theorem isWithin_resolve (d : Downloads) (kind : TemplateKind) (p : Payload)
    (s : StandInSettings) : (d.resolve kind p s).2.shelf.IsWithin d.shelf := by
  intro other key e he
  rcases d.resolve_cases kind p s with h | h
  · rwa [h] at he
  · have hremove : (d.shelf.remove kind p.key).get? other key = some e := by rwa [h] at he
    rw [Shelf.get?_remove] at hremove
    split at hremove
    · cases hremove
    · exact hremove

/-- A step that does not deliver puts nothing on the shelf. -/
theorem Step.shelf_isWithin (h : Step t e u) (hbrings : e.brings = false)
    (hdelivered : e.delivered? = none) :
    u.downloads.shelf.IsWithin t.downloads.shelf := by
  cases h with
  | request starts =>
    obtain ⟨-, -, rfl⟩ := Downloads.request?_eq_some_iff.mp starts
    exact fun _ _ _ he => he
  | ask present started allowed => exact fun _ _ _ he => he
  | refuse present started spent => exact fun _ _ _ he => he
  | answer present asking a =>
    intro kind key entry he
    exact (shelf_receive t.downloads _ a) ▸ he
  | deliver present finished => cases hdelivered
  | aside a =>
    cases a with
    | resolve kind p s => exact isWithin_resolve t.downloads kind p s
    | list kind page => cases hbrings
    | restock shelf => cases hbrings
    | charge key => exact fun _ _ _ he => he
    | reset key => exact fun _ _ _ he => he

/-- What is delivered was on its way, and had finished. -/
theorem Step.of_delivered (h : Step t e u) {number : Nat} (hdelivered : e.delivered? = some number) :
    ∃ x result earlier later, t.transfers = earlier ++ x :: later ∧
      x.phase = .finished result ∧ x.number = number ∧
      u = { t.deliver x result with transfers := earlier ++ later } := by
  cases h with
  | deliver present finished =>
    exact ⟨_, _, _, _, present, finished, Option.some.inj hdelivered, rfl⟩
  | request starts => cases hdelivered
  | ask present started allowed => cases hdelivered
  | refuse present started spent => cases hdelivered
  | answer present asking a => cases hdelivered
  | aside a => cases hdelivered

/-- A delivery puts at most one entry on the shelf. -/
theorem Step.shelf_of_delivered (h : Step t e u) {number : Nat}
    (hdelivered : e.delivered? = some number) :
    u.downloads.shelf = t.downloads.shelf ∨
      ∃ kind entry, u.downloads.shelf = t.downloads.shelf.insert kind entry := by
  obtain ⟨x, result, earlier, later, -, -, -, rfl⟩ := h.of_delivered hdelivered
  cases result with
  | ok entry => exact .inr ⟨x.kind, entry, rfl⟩
  | error f => exact .inl rfl

/-! ## Every download can be brought to its end -/

/-- The traffic can lose the download that was asked for last, without further requests. -/
def CanLoseHead (t : Traffic) (later : List Transfer) : Prop :=
  ∃ es u, Run t es u ∧ requested es = [] ∧ u.transfers = later

theorem CanLoseHead.before {later : List Transfer} (h : CanLoseHead u later) (hstep : Step t e u)
    (hrequested : e.requested? = none) : CanLoseHead t later := by
  obtain ⟨es, v, hrun, hes, hv⟩ := h
  exact ⟨e :: es, v, (Run.single hstep).append hrun, (List.filterMap_cons_none hrequested).trans hes,
    hv⟩

theorem canLoseHead_of_finished {x : Transfer} {later : List Transfer}
    {result : Except FetchError TemplateEntry} (present : t.transfers = x :: later)
    (finished : x.phase = .finished result) : CanLoseHead t later :=
  ⟨_, _, .single (@Step.deliver t x [] later result present finished), rfl, rfl⟩

/-- A download whose service was asked comes to its end with any answer. -/
theorem canLoseHead_of_asking {x : Transfer} {later : List Transfer} (a : CatalogAnswer)
    (present : t.transfers = x :: later) (asking : x.phase = .asking) : CanLoseHead t later := by
  have hstep := @Step.answer t x [] later present asking a
  exact (canLoseHead_of_finished rfl rfl).before hstep rfl

theorem canLoseHead {x : Transfer} {later : List Transfer} (present : t.transfers = x :: later) :
    CanLoseHead t later := by
  cases hphase : x.phase with
  | started =>
    by_cases hallows : t.downloads.attempts.allows x.key = true
    · have hstep := @Step.ask t x [] later present hphase hallows
      exact (canLoseHead_of_asking (.error (.notFound x.key)) rfl rfl).before hstep rfl
    · have hstep := @Step.refuse t x [] later present hphase (Bool.eq_false_iff.mpr hallows)
      exact (canLoseHead_of_finished rfl rfl).before hstep rfl
  | asking => exact canLoseHead_of_asking (.error (.notFound x.key)) present hphase
  | finished result => exact canLoseHead_of_finished present hphase

/-- All downloads on their way can be brought to their ends. -/
theorem exists_run_transfers_nil (t : Traffic) :
    ∃ es u, Run t es u ∧ requested es = [] ∧ u.transfers = [] := by
  induction hpresent : t.transfers generalizing t with
  | nil => exact ⟨[], t, .nil, rfl, hpresent⟩
  | cons x later ih =>
    obtain ⟨es, u, hrun, hes, hu⟩ := canLoseHead hpresent
    obtain ⟨more, v, hmore, hnone, hv⟩ := ih u hu
    exact ⟨es ++ more, v, hrun.append hmore, by rw [requested_append, hes, hnone]; rfl, hv⟩

/-! ## Bookkeeping -/

/-- In every run, at most one download of a target is outstanding, and the running downloads are
those that were asked for and are not delivered. A request starts nothing if the budget is spent or
a download of its target is outstanding, and only then. What is delivered was outstanding, and is
not delivered again; a delivery signals once and puts at most one entry on the shelf, and no other
step of a download does so. When none is running each was delivered once, and from any state all can
be brought there. -/
theorem exact_bookkeeping (h : Reachable past t) :
    (∀ target m n, Outstanding past m target → Outstanding past n target → m = n) ∧
    (∀ kind key, t.downloads.isRunning kind key = true ↔ ∃ n, Outstanding past n (kind, key)) ∧
    (∀ kind key, t.downloads.request? kind key = none ↔
      t.limit ≤ t.count key ∨ ∃ n, Outstanding past n (kind, key)) ∧
    ((delivered past).Nodup ∧ ∀ n ∈ delivered past, n < (requested past).length) ∧
    (∀ e u, Step t e u →
      (∀ n, e.delivered? = some n → (∃ target, Outstanding past n target) ∧
        u.desk.reloads = t.desk.reloads + 1 ∧
        (u.downloads.shelf = t.downloads.shelf ∨
          ∃ kind entry, u.downloads.shelf = t.downloads.shelf.insert kind entry)) ∧
      (e.delivered? = none → e.brings = false →
        u.desk.reloads = t.desk.reloads ∧ u.downloads.shelf.IsWithin t.downloads.shelf)) ∧
    ((∀ e ∈ past, e.brings = false) → t.desk.reloads = (delivered past).length) ∧
    (t.downloads.running = [] → (delivered past).Perm (List.range (requested past).length)) ∧
    (∃ es u, Run t es u ∧ requested es = [] ∧ u.downloads.running = []) := by
  have hbooks := books h
  refine ⟨fun target m n hm hn => ?_, fun kind key => hbooks.isRunning_iff, fun kind key => ?_,
    ⟨?_, fun n hn => ?_⟩,
    fun e u hstep => ⟨fun n hn => ⟨?_, ?_, ?_⟩, fun hnone hbrings => ⟨?_, ?_⟩⟩,
    fun hbrings => ?_, fun hidle => ?_, ?_⟩
  · obtain ⟨x, hx, rfl, hxt⟩ := hbooks.outstanding_iff.mp hm
    obtain ⟨y, hy, rfl, hyt⟩ := hbooks.outstanding_iff.mp hn
    rw [hbooks.eq_of_target_eq hx hy (hxt.trans hyt.symm)]
  · rw [← hbooks.isRunning_iff]
    exact Downloads.request?_eq_none_iff
  · exact (List.nodup_append.mp hbooks.nodup_numbers).2.1
  · have hmem := hbooks.numbers.subset (List.mem_append_right _ hn)
    rwa [List.mem_range, hbooks.requests_eq] at hmem
  · obtain ⟨x, _, _, _, present, _, rfl, _⟩ := hstep.of_delivered hn
    exact ⟨x.target, hbooks.outstanding_iff.mpr ⟨x, mem_of_present present, rfl, rfl⟩⟩
  · rw [hstep.reloads_eq (Event.brings_of_delivered hn), hn]
    rfl
  · exact hstep.shelf_of_delivered hn
  · rw [hstep.reloads_eq hbrings, hnone]
    rfl
  · exact hstep.shelf_isWithin hbrings hnone
  · obtain ⟨shelf, attempts, hrun⟩ := h
    rw [hrun.reloads_eq hbrings]
    exact Nat.zero_add _
  · exact hbooks.perm_delivered (hbooks.running_eq_nil_iff.mp hidle)
  · obtain ⟨es, u, hrun, hes, hu⟩ := exists_run_transfers_nil t
    exact ⟨es, u, hrun, hes, (books (h.append hrun)).running_eq_nil_iff.mpr hu⟩

/-- Two downloads of one key but of different kinds may run at once, and neither starts again. -/
theorem exact_bookkeeping_of_both_kinds :
    ∃ past t, Reachable past t ∧ requested past = [(.message, "a"), (.notification, "a")] ∧
      t.downloads.isRunning .message "a" = true ∧
      t.downloads.request? .notification "a" = none := by
  have hrun := ((Run.nil (t := opening .empty (.ofLimit 1))).concat
    (@Step.request _ .message "a" _ rfl)).concat (@Step.request _ .notification "a" _ rfl)
  have hbooks := exact_bookkeeping ⟨_, _, hrun⟩
  refine ⟨_, _, ⟨_, _, hrun⟩, rfl, ?_, ?_⟩
  · exact (hbooks.2.1 .message "a").mpr ⟨0, rfl, List.not_mem_nil⟩
  · exact (hbooks.2.2.1 .notification "a").mpr (.inr ⟨1, rfl, List.not_mem_nil⟩)

end Traffic
end MessageCard
