import MessageCard.Proofs.Catalog.Bookkeeping

/-!
# The service is not asked too often

The budget of a key is checked when a download turns to the service and charged when the answer
fails, and in between other downloads of the key may turn to the service too. The failures that are
counted and the contacts that are still open together stay within the limit, but for one contact of
each further kind.
-/
namespace MessageCard

def Phase.isAsking : Phase → Bool
  | .asking => true
  | _ => false

namespace Traffic

/-- The number of contacts with the service that failed for a key. -/
def failures (key : String) (es : List Event) : Nat := es.countP (·.failsFor key)

/-- Whether a download waits for the service to answer for a key. -/
def waitsFor (key : String) (x : Transfer) : Bool := x.key = key && x.phase.isAsking

/-- The number of contacts with the service that are open for a key. -/
def contacts (key : String) (t : Traffic) : Nat := t.transfers.countP (waitsFor key)

variable {t u : Traffic} {e : Event} {es past : List Event} {key : String}

@[simp] theorem failures_append (key : String) (es later : List Event) :
    failures key (es ++ later) = failures key es + failures key later := List.countP_append

theorem failures_singleton (key : String) (e : Event) :
    failures key [e] = if e.failsFor key then 1 else 0 := List.countP_singleton

/-- No download starts without a limit to keep to. -/
theorem limit_pos_of_mem {x : Transfer} (h : Reachable past t) (hx : x ∈ t.transfers) :
    0 < t.limit := by
  obtain ⟨shelf, attempts, hrun⟩ := h
  induction hrun generalizing x with
  | nil => exact absurd hx List.not_mem_nil
  | concat hrun hstep ih =>
    rw [hstep.limit_eq]
    rcases hstep.mem_transfers hx with ⟨y, hy, -⟩ | ⟨-, hbelow⟩
    · exact ih hy
    · exact Nat.zero_lt_of_lt hbelow

/-- For each kind of a key at most one contact is open. -/
theorem Books.contacts_le (h : Books past t) {kinds : List TemplateKind}
    (hkinds : ∀ target ∈ requested past, target.2 = key → target.1 ∈ kinds) :
    contacts key t ≤ kinds.length := by
  have hinj : ∀ x ∈ t.transfers.filter (waitsFor key), ∀ y ∈ t.transfers.filter (waitsFor key),
      x.kind = y.kind → x = y := by
    intro x hx y hy hkind
    obtain ⟨hx, hxkey⟩ := List.mem_filter.mp hx
    obtain ⟨hy, hykey⟩ := List.mem_filter.mp hy
    simp only [waitsFor, Bool.and_eq_true, decide_eq_true_eq] at hxkey hykey
    refine h.eq_of_target_eq hx hy ?_
    rw [Transfer.target, Transfer.target, hkind, hxkey.1, hykey.1]
  have hnodup : ((t.transfers.filter (waitsFor key)).map (·.kind)).Nodup :=
    (h.nodup.of_map.filter _).map_on hinj
  have hsubset : (t.transfers.filter (waitsFor key)).map (·.kind) ⊆ kinds := by
    intro kind hkind
    obtain ⟨x, hx, rfl⟩ := List.mem_map.mp hkind
    obtain ⟨hx, hxkey⟩ := List.mem_filter.mp hx
    simp only [waitsFor, Bool.and_eq_true, decide_eq_true_eq] at hxkey
    exact hkinds x.target (List.mem_of_getElem? (h.targets x hx)) hxkey.1
  have hlength := hnodup.length_le_of_subset hsubset
  rwa [List.length_map, ← List.countP_eq_length_filter] at hlength

/-- A contact opens only below the limit. Else a step opens none, and one that fails is closed. -/
theorem Step.contacts_le (h : Step t e u) (key : String) :
    failures key [e] + contacts key u ≤ contacts key t ∨
      failures key [e] = 0 ∧ t.count key < t.limit := by
  rw [failures_singleton]
  cases h with
  | request starts =>
    obtain ⟨-, -, rfl⟩ := Downloads.request?_eq_some_iff.mp starts
    left
    simp [Event.failsFor, contacts, withDownloads, start, waitsFor, Phase.isAsking]
  | @ask x earlier later present started allowed =>
    by_cases hkey : x.key = key
    · exact .inr ⟨rfl, hkey ▸ Attempts.allows_iff.mp allowed⟩
    · left
      simp [Event.failsFor, contacts, present, waitsFor, hkey]
  | @refuse x earlier later present started spent =>
    left
    simp [Event.failsFor, contacts, present, waitsFor, started, Phase.isAsking]
  | @answer x earlier later present asking a =>
    left
    by_cases hkey : x.key = key
    · simp [Event.failsFor, contacts, present, waitsFor, asking, hkey, Phase.isAsking]
      split <;> omega
    · simp [Event.failsFor, contacts, present, waitsFor, hkey]
  | @deliver x earlier later result present finished =>
    left
    simp [Event.failsFor, contacts, present, waitsFor, finished, Phase.isAsking]
  | aside a =>
    left
    simp [Event.failsFor, contacts]

/-- The failures since some point in time, and the contacts that are open, keep to the limit. -/
structure Ledger (key : String) (es : List Event) (kinds : List TemplateKind) (t : Traffic) :
    Prop where
  counted : t.count key < t.limit → failures key es ≤ t.count key
  bounded : failures key es + contacts key t ≤ t.limit + (kinds.length - 1)

/-- The ledger opens with any contacts that are open already. -/
theorem Ledger.nil {kinds : List TemplateKind} (h : Reachable past t)
    (hkinds : ∀ target ∈ requested past, target.2 = key → target.1 ∈ kinds) :
    Ledger key [] kinds t := by
  refine ⟨fun _ => Nat.zero_le _, ?_⟩
  have hle := (books h).contacts_le hkinds
  show 0 + contacts key t ≤ _
  by_cases hopen : contacts key t = 0
  · omega
  · obtain ⟨x, hx, -⟩ := List.countP_pos_iff.mp (Nat.pos_of_ne_zero hopen)
    have hlimit := limit_pos_of_mem h hx
    omega

/-- A step without a reset keeps the ledger, if the contacts after it are as few as the kinds. -/
theorem Ledger.step {kinds : List TemplateKind} (h : Ledger key es kinds t) (hstep : Step t e u)
    (hreset : e ≠ .aside (.reset key)) (hcontacts : contacts key u ≤ kinds.length) :
    Ledger key (es ++ [e]) kinds u := by
  have hlimit := hstep.limit_eq
  have hle := hstep.count_le hreset
  constructor
  -- Below the limit counting has not stopped, so a failure adds one on both sides.
  · intro hbelow
    rw [failures_append, failures_singleton]
    split
    · next hfails =>
      have hcount := hstep.count_of_failsFor hfails
      have hmost : u.limit ≤ Attempts.countLimit := u.downloads.attempts.limit_le
      have hcounted := h.counted (by omega)
      omega
    · have hcounted := h.counted (by omega)
      omega
  · rw [failures_append]
    have hbounded := h.bounded
    rcases hstep.contacts_le key with hclosed | ⟨hnone, hbelow⟩
    · omega
    -- A contact opens, but below the limit, where all failures are counted.
    · have hcounted := h.counted hbelow
      omega

/-- A run without a reset keeps the ledger. -/
theorem ledger {kinds : List TemplateKind} (h : Reachable past t) (hrun : Run t es u)
    (hreset : .aside (.reset key) ∉ es)
    (hkinds : ∀ target ∈ requested (past ++ es), target.2 = key → target.1 ∈ kinds) :
    Ledger key es kinds u := by
  induction hrun with
  | nil => exact .nil h (by simpa using hkinds)
  | @concat v w es e hrun hstep ih =>
    simp only [List.mem_append, List.mem_singleton, not_or] at hreset
    have hledger := ih hreset.1 fun target htarget => hkinds target (by
      rw [← List.append_assoc, requested_append]
      exact List.mem_append_left _ htarget)
    have hbooks := books (h.append (hrun.concat hstep))
    exact hledger.step hstep (fun he => hreset.2 he.symm) (hbooks.contacts_le hkinds)

/-- Once the limit is reached the service is not asked any more. -/
theorem Run.not_asksFor (h : Run t es u) (hreset : .aside (.reset key) ∉ es)
    (hspent : t.limit ≤ t.count key) : ∀ e ∈ es, e.asksFor key = false := by
  induction h with
  | nil => exact fun e he => absurd he List.not_mem_nil
  | @concat v w es last hrun hstep ih =>
    simp only [List.mem_append, List.mem_singleton, not_or] at hreset
    intro e he
    rcases List.mem_append.mp he with he | he
    · exact ih hreset.1 e he
    · obtain rfl := List.mem_singleton.mp he
      have hcount := hrun.count_le hreset.1
      have hlimit := hrun.limit_eq
      cases hstep with
      | @ask x earlier later present started allowed =>
        refine decide_eq_false fun hkey => ?_
        have hbelow : v.count x.key < v.limit := Attempts.allows_iff.mp allowed
        rw [hkey] at hbelow
        omega
      | request starts => rfl
      | refuse present started spent => rfl
      | answer present asking a => rfl
      | deliver present finished => rfl
      | aside a => rfl

/-! ## The ceiling -/

/-- While nobody forgets the failures of a key, the contacts with the service that fail for it are
at most one more than the limit, and within the limit if all requests for the key are of one kind.
From the time that the limit is reached no contact begins. What happens to other keys does not
decide whether a key may be tried. -/
theorem retry_ceiling (h : Reachable past t) (hrun : Run t es u)
    (hreset : .aside (.reset key) ∉ es) :
    failures key es ≤ u.limit + 1 ∧
    (∀ kind, (∀ target ∈ requested (past ++ es), target.2 = key → target.1 = kind) →
      failures key es ≤ u.limit) ∧
    (∀ later v, Run u later v → .aside (.reset key) ∉ later → u.limit ≤ u.count key →
      ∀ e ∈ later, e.asksFor key = false) ∧
    (∀ other, (∀ e ∈ es, e.countedKey? ≠ some other) →
      u.downloads.attempts.allows other = t.downloads.attempts.allows other) := by
  refine ⟨?_, fun kind hkind => ?_, fun later v hlater hkept hspent => ?_, fun other hother => ?_⟩
  · have hboth : ∀ target ∈ requested (past ++ es), target.2 = key →
        target.1 ∈ [TemplateKind.message, .notification] := by
      intro target _ _
      cases target.1 <;> simp
    have hbounded := (ledger h hrun hreset hboth).bounded
    simp only [List.length_cons, List.length_nil] at hbounded
    omega
  · have hone : ∀ target ∈ requested (past ++ es), target.2 = key → target.1 ∈ [kind] :=
      fun target htarget hkey => List.mem_singleton.mpr (hkind target htarget hkey)
    have hbounded := (ledger h hrun hreset hone).bounded
    simp only [List.length_cons, List.length_nil] at hbounded
    omega
  · exact hlater.not_asksFor hkept hspent
  · have hcount : u.count other = t.count other := hrun.count_eq hother
    have hlimit : u.limit = t.limit := hrun.limit_eq
    show decide (u.count other < u.limit) = decide (t.count other < t.limit)
    rw [hcount, hlimit]

/-- Contacts of both kinds that are open at once may fail once more than the limit says. -/
theorem retry_ceiling_of_both_kinds :
    ∃ es u, Run (opening .empty (.ofLimit 1)) es u ∧ .aside (.reset "a") ∉ es ∧ u.limit = 1 ∧
      failures "a" es = 2 ∧ failures "a" es ≤ u.limit + 1 := by
  let m : Transfer := ⟨0, .message, "a", 0, .started⟩
  let n : Transfer := ⟨1, .notification, "a", 0, .started⟩
  let a : CatalogAnswer := .error (.notFound "a")
  have hrun := ((((((Run.nil (t := opening .empty (.ofLimit 1))).concat
    (@Step.request _ .message "a" _ rfl)).concat
    (@Step.request _ .notification "a" _ rfl)).concat
    (@Step.ask _ m [n] [] rfl rfl rfl)).concat
    (@Step.ask _ n [] [m.inPhase .asking] rfl rfl rfl)).concat
    (@Step.answer _ (m.inPhase .asking) [n.inPhase .asking] [] rfl rfl a)).concat
    (@Step.answer _ (n.inPhase .asking) [] _ rfl rfl a)
  have hreset : Event.aside (.reset "a") ∉ [Event.request .message "a", .request .notification "a",
      .ask m, .ask n, .answer (m.inPhase .asking) a, .answer (n.inPhase .asking) a] := by simp
  have hceiling := retry_ceiling ⟨_, _, .nil⟩ hrun hreset
  exact ⟨_, _, hrun, hreset, rfl, rfl, hceiling.1⟩

end Traffic
end MessageCard
