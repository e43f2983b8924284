import MessageCard.Catalog.Traffic

/-!
# What a step does

Each step is described by what it does to the limit, to the failures of a key, to the shelf and to
the downloads on their way. The invariants of runs are derived from these descriptions.
-/
namespace MessageCard

namespace Downloads

/-- A message is resolved without a trace, or its entry is dropped. -/
theorem resolve_cases (d : Downloads) (kind : TemplateKind) (p : Payload) (s : StandInSettings) :
    (d.resolve kind p s).2 = d ∨ (d.resolve kind p s).2 = d.drop kind p.key := by
  unfold resolve
  split
  · exact .inl rfl
  · split
    · exact .inl rfl
    · dsimp only
      split
      · exact .inl rfl
      · exact .inr rfl

theorem receive_of_ok {a : CatalogAnswer} {e : TemplateEntry} (h : readEntry a = .ok e)
    (d : Downloads) (key : String) : d.receive key a = (.ok e, d) := by
  simp only [receive, h]

theorem receive_of_error {a : CatalogAnswer} {e : FetchError} (h : readEntry a = .error e)
    (d : Downloads) (key : String) :
    d.receive key a = (.error e, { d with attempts := d.attempts.fail key }) := by
  simp only [receive, h]

/-- A request starts nothing if no attempt is left or a download of its target is running. -/
theorem request?_eq_none_iff {d : Downloads} {kind : TemplateKind} {key : String} :
    d.request? kind key = none ↔
      d.attempts.limit ≤ d.attempts.count key ∨ d.isRunning kind key = true := by
  rw [← Attempts.allows_eq_false_iff]
  unfold request?
  split
  · next h => exact ⟨fun _ => h, fun _ => rfl⟩
  · next h => exact ⟨fun hnone => absurd hnone (by simp), fun hnone => absurd hnone h⟩

/-- A request that starts a download found an attempt left, and none running of its target. -/
theorem request?_eq_some_iff {d e : Downloads} {kind : TemplateKind} {key : String} :
    d.request? kind key = some e ↔
      d.attempts.allows key = true ∧ (kind, key) ∉ d.running ∧
        e = { d with running := (kind, key) :: d.running } := by
  unfold request?
  split
  · next h =>
    refine ⟨fun h => absurd h (by simp), fun ⟨hallows, hrunning, _⟩ => ?_⟩
    rcases h with h | h
    · exact absurd hallows (by simp [h])
    · exact absurd (List.contains_iff_mem.mp h) hrunning
  · next h =>
    obtain ⟨hallows, hrunning⟩ := not_or.mp h
    have hallows : d.attempts.allows key = true := by simpa using hallows
    have hrunning : (kind, key) ∉ d.running := fun hm => hrunning (List.contains_iff_mem.mpr hm)
    exact ⟨fun h => ⟨hallows, hrunning, (Option.some.inj h).symm⟩, fun h => by rw [h.2.2]⟩

end Downloads

namespace Aside

theorem running_apply (a : Aside) (desk : Desk) :
    (a.apply desk).downloads.running = desk.downloads.running := by
  cases a with
  | resolve kind p s =>
    show (desk.downloads.resolve kind p s).2.running = desk.downloads.running
    rcases desk.downloads.resolve_cases kind p s with h | h
    · rw [h]
    · rw [h]
      rfl
  | list kind page => rfl
  | restock shelf => rfl
  | charge key => rfl
  | reset key => rfl

theorem limit_apply (a : Aside) (desk : Desk) :
    (a.apply desk).downloads.attempts.limit = desk.downloads.attempts.limit := by
  cases a with
  | resolve kind p s =>
    show (desk.downloads.resolve kind p s).2.attempts.limit = desk.downloads.attempts.limit
    rcases desk.downloads.resolve_cases kind p s with h | h
    · rw [h]
    · rw [h]
      rfl
  | list kind page => rfl
  | restock shelf => rfl
  | charge key => rfl
  | reset key => rfl

/-- Failures are only forgotten where that is asked for. -/
theorem count_le_apply {a : Aside} {key : String} (hreset : a ≠ .reset key) (desk : Desk) :
    desk.downloads.attempts.count key ≤ (a.apply desk).downloads.attempts.count key := by
  cases a with
  | resolve kind p s =>
    have hfail := desk.downloads.attempts.count_le_count_fail p.key key
    rcases desk.downloads.resolve_cases kind p s with h | h
    · exact Nat.le_of_eq (congrArg (·.attempts.count key) h.symm)
    · exact Nat.le_trans hfail (Nat.le_of_eq (congrArg (·.attempts.count key) h.symm))
  | list kind page => exact Nat.le_refl _
  | restock shelf => exact Nat.le_refl _
  | charge other => exact Attempts.count_le_count_fail _ _ _
  | reset other =>
    have hother : other ≠ key := fun h => hreset (h ▸ rfl)
    have hsame : (desk.downloads.attempts.reset other).count key =
        desk.downloads.attempts.count key := by
      rw [Attempts.count_reset, if_neg hother]
    exact Nat.le_of_eq hsame.symm

/-- The failures of a key are no other key's affair. -/
theorem count_apply {a : Aside} {key : String} (hkey : (Event.aside a).countedKey? ≠ some key)
    (desk : Desk) :
    (a.apply desk).downloads.attempts.count key = desk.downloads.attempts.count key := by
  cases a with
  | resolve kind p s =>
    have hother : p.key ≠ key := fun h => hkey (congrArg some h)
    have hfail := Attempts.count_fail_of_ne hother desk.downloads.attempts
    rcases desk.downloads.resolve_cases kind p s with h | h
    · exact congrArg (·.attempts.count key) h
    · exact (congrArg (·.attempts.count key) h).trans hfail
  | list kind page => rfl
  | restock shelf => rfl
  | charge other => exact Attempts.count_fail_of_ne (fun h => hkey (congrArg some h)) _
  | reset other =>
    have hother : other ≠ key := fun h => hkey (congrArg some h)
    show (desk.downloads.attempts.reset other).count key = _
    rw [Attempts.count_reset, if_neg hother]

end Aside

namespace Traffic

variable {t u : Traffic} {e : Event} {es : List Event} {key : String}

theorem mem_of_present {x : Transfer} {earlier later : List Transfer}
    (present : t.transfers = earlier ++ x :: later) : x ∈ t.transfers :=
  present ▸ List.mem_append_right _ List.mem_cons_self

/-- The downloads after one of them has gone on. -/
theorem eq_or_mem_of_move {x y : Transfer} {phase : Phase} {earlier later : List Transfer}
    (present : t.transfers = earlier ++ x :: later)
    (hy : y ∈ earlier ++ x.inPhase phase :: later) : y = x.inPhase phase ∨ y ∈ t.transfers := by
  rw [present, List.mem_append, List.mem_cons]
  rcases List.mem_append.mp hy with hy | hy
  · exact .inr (.inl hy)
  · rcases List.mem_cons.mp hy with hy | hy
    · exact .inl hy
    · exact .inr (.inr (.inr hy))

/-- The downloads after one of them has been delivered. -/
theorem mem_of_mem_remaining {x y : Transfer} {earlier later : List Transfer}
    (present : t.transfers = earlier ++ x :: later) (hy : y ∈ earlier ++ later) :
    y ∈ t.transfers := by
  rw [present, List.mem_append, List.mem_cons]
  rcases List.mem_append.mp hy with hy | hy
  · exact .inl hy
  · exact .inr (.inr hy)

/-- A download after a step was on its way before it, or the step is its request. -/
theorem Step.mem_transfers (h : Step t e u) {y : Transfer} (hy : y ∈ u.transfers) :
    (∃ x ∈ t.transfers, ∃ phase, y = x.inPhase phase) ∨
      y.before = t.count y.key ∧ t.count y.key < t.limit := by
  have hkeep : y ∈ t.transfers → ∃ x ∈ t.transfers, ∃ phase, y = x.inPhase phase :=
    fun hy => ⟨y, hy, y.phase, rfl⟩
  have hmove : ∀ {x : Transfer} {phase : Phase} {earlier later : List Transfer},
      t.transfers = earlier ++ x :: later → y ∈ earlier ++ x.inPhase phase :: later →
        ∃ x ∈ t.transfers, ∃ phase, y = x.inPhase phase := by
    intro x phase earlier later present hy
    rcases eq_or_mem_of_move present hy with rfl | hy
    · exact ⟨x, mem_of_present present, phase, rfl⟩
    · exact hkeep hy
  cases h with
  | request starts =>
    obtain ⟨hallows, -, -⟩ := Downloads.request?_eq_some_iff.mp starts
    rcases List.mem_cons.mp hy with rfl | hy
    · exact .inr ⟨rfl, Attempts.allows_iff.mp hallows⟩
    · exact .inl (hkeep hy)
  | ask present started allowed => exact .inl (hmove present hy)
  | refuse present started spent => exact .inl (hmove present hy)
  | answer present asking a => exact .inl (hmove present hy)
  | deliver present finished => exact .inl (hkeep (mem_of_mem_remaining present hy))
  | aside a => exact .inl (hkeep hy)

/-! ## The limit and the failures -/

theorem limit_receive (t : Traffic) (key : String) (a : CatalogAnswer) :
    (t.downloads.receive key a).2.attempts.limit = t.limit := by
  cases h : readEntry a with
  | ok entry => rw [Downloads.receive_of_ok h]; rfl
  | error f => rw [Downloads.receive_of_error h]; rfl

theorem Step.limit_eq (h : Step t e u) : u.limit = t.limit := by
  cases h with
  | request starts =>
    obtain ⟨-, -, rfl⟩ := Downloads.request?_eq_some_iff.mp starts
    rfl
  | ask present started allowed => rfl
  | refuse present started spent => rfl
  | answer present asking a => exact t.limit_receive _ a
  | deliver present finished => rfl
  | aside a => exact a.limit_apply t.desk

theorem Step.count_le (h : Step t e u) (hreset : e ≠ .aside (.reset key)) :
    t.count key ≤ u.count key := by
  cases h with
  | request starts =>
    obtain ⟨-, -, rfl⟩ := Downloads.request?_eq_some_iff.mp starts
    exact Nat.le_refl _
  | ask present started allowed => exact Nat.le_refl _
  | refuse present started spent => exact Nat.le_refl _
  | answer present asking a =>
    show _ ≤ (t.downloads.receive _ a).2.attempts.count key
    cases h : readEntry a with
    | ok entry => rw [Downloads.receive_of_ok h]; exact Nat.le_refl _
    | error f => rw [Downloads.receive_of_error h]; exact Attempts.count_le_count_fail _ _ _
  | deliver present finished => exact Nat.le_refl _
  | aside a => exact Aside.count_le_apply (fun h => hreset (h ▸ rfl)) t.desk

theorem Step.count_eq (h : Step t e u) (hkey : e.countedKey? ≠ some key) :
    u.count key = t.count key := by
  cases h with
  | request starts =>
    obtain ⟨-, -, rfl⟩ := Downloads.request?_eq_some_iff.mp starts
    rfl
  | ask present started allowed => rfl
  | refuse present started spent => rfl
  | @answer x earlier later present asking a =>
    have hother : x.key ≠ key := fun h => hkey (congrArg some h)
    show (t.downloads.receive _ a).2.attempts.count key = _
    cases h : readEntry a with
    | ok entry => rw [Downloads.receive_of_ok h]; rfl
    | error f => rw [Downloads.receive_of_error h]; exact Attempts.count_fail_of_ne hother _
  | deliver present finished => rfl
  | aside a => exact Aside.count_apply hkey t.desk

/-- A failed contact is counted, as far as counting goes. -/
theorem Step.count_of_failsFor (h : Step t e u) (hfails : e.failsFor key = true) :
    u.count key = min (t.count key + 1) Attempts.countLimit := by
  cases h with
  | @answer x earlier later present asking a =>
    show (t.downloads.receive _ a).2.attempts.count key = _
    cases h : readEntry a with
    | ok entry => simp [Event.failsFor, h, Except.toBool] at hfails
    | error f =>
      obtain rfl : x.key = key := by simpa [Event.failsFor, h, Except.toBool] using hfails
      rw [Downloads.receive_of_error h]
      exact Attempts.count_fail_self _ _
  | request starts => cases hfails
  | ask present started allowed => cases hfails
  | refuse present started spent => cases hfails
  | deliver present finished => cases hfails
  | aside a => cases hfails

/-! ## Runs -/

theorem Run.single (h : Step t e u) : Run t [e] u := Run.concat .nil h

theorem Run.append {v : Traffic} {later : List Event} (h : Run t es u) (hlater : Run u later v) :
    Run t (es ++ later) v := by
  induction hlater with
  | nil => rwa [List.append_nil]
  | concat hrun hstep ih => rw [← List.append_assoc]; exact ih.concat hstep

theorem Reachable.append {past : List Event} (h : Reachable past t) (hrun : Run t es u) :
    Reachable (past ++ es) u := by
  obtain ⟨shelf, attempts, h⟩ := h
  exact ⟨shelf, attempts, h.append hrun⟩

theorem Run.limit_eq (h : Run t es u) : u.limit = t.limit := by
  induction h with
  | nil => rfl
  | concat hrun hstep ih => rw [hstep.limit_eq, ih]

theorem Run.count_le (h : Run t es u) (hreset : .aside (.reset key) ∉ es) :
    t.count key ≤ u.count key := by
  induction h with
  | nil => exact Nat.le_refl _
  | concat hrun hstep ih =>
    simp only [List.mem_append, List.mem_singleton, not_or] at hreset
    exact Nat.le_trans (ih hreset.1) (hstep.count_le fun h => hreset.2 h.symm)

theorem Run.count_eq (h : Run t es u) (hkey : ∀ e ∈ es, e.countedKey? ≠ some key) :
    u.count key = t.count key := by
  induction h with
  | nil => rfl
  | concat hrun hstep ih =>
    have hbefore := ih fun e he => hkey e (List.mem_append_left _ he)
    rw [hstep.count_eq (hkey _ List.mem_concat_self), hbefore]

end Traffic
end MessageCard
