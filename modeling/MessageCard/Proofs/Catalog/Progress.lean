import MessageCard.Proofs.Catalog.Budget

/-!
# What a delivery brings

A download that is delivered has brought its entry, or its failure has been counted, unless the
service answered with an entry of another key. Such an entry is put on the shelf under the key that
it names: the key that was asked for stays missing, and no attempt is spent.
-/
namespace MessageCard

namespace Traffic

variable {t u v : Traffic} {e : Event} {es past : List Event} {key : String} {since : Nat}

/-- There is an entry for a download, or a failure has been counted since it was asked for, or no
attempt is left. -/
def Progressed (x : Transfer) (t : Traffic) : Prop :=
  t.misses x.target = false ∨ x.before < t.count x.key ∨ t.limit ≤ t.count x.key

/-! ## The shelf after a delivery -/

theorem misses_deliver_ok (t : Traffic) (x : Transfer) (e : TemplateEntry) :
    (t.deliver x (.ok e)).misses x.target =
      if e.key = x.key then false else t.misses x.target := by
  show (!((t.downloads.shelf.insert x.kind e).get? x.kind x.key).isSome) = _
  rw [Shelf.get?_insert]
  by_cases hkey : e.key = x.key
  · rw [if_pos (by rw [hkey]), if_pos hkey]
    rfl
  · rw [if_neg (fun h => hkey (Prod.mk.inj h).2), if_neg hkey]
    rfl

/-! ## The failures of a download -/

/-- A download found an attempt left when it was asked for, and its failure, where it has failed, is
counted. -/
structure IsCharged (x : Transfer) (t : Traffic) : Prop where
  before_lt : x.before < t.limit
  before_le : x.before ≤ t.count x.key
  counted : ∀ f, x.phase = .finished (.error f) → x.before < t.count x.key

/-- The downloads of a key, those from a number on, are charged. -/
def Charged (key : String) (since : Nat) (t : Traffic) : Prop :=
  ∀ x ∈ t.transfers, x.key = key → since ≤ x.number → IsCharged x t

theorem IsCharged.mono {x : Transfer} (h : IsCharged x t) (hlimit : u.limit = t.limit)
    (hcount : t.count x.key ≤ u.count x.key) : IsCharged x u where
  before_lt := hlimit ▸ h.before_lt
  before_le := Nat.le_trans h.before_le hcount
  counted f hf := Nat.lt_of_lt_of_le (h.counted f hf) hcount

/-- A download that goes on is charged if its failure, where it fails, is counted. -/
theorem IsCharged.move {x : Transfer} {phase : Phase} (h : IsCharged x t)
    (hlimit : u.limit = t.limit) (hcount : t.count x.key ≤ u.count x.key)
    (hphase : ∀ f, phase = .finished (.error f) → x.before < u.count x.key) :
    IsCharged (x.inPhase phase) u where
  before_lt := hlimit ▸ h.before_lt
  before_le := Nat.le_trans h.before_le hcount
  counted := hphase

/-- At no time is there a download of those that come later. -/
theorem Charged.start (h : Reachable past t) (key : String) : Charged key t.requests t := by
  intro x hx _ hle
  have hlt := (List.getElem?_eq_some_iff.mp ((books h).targets x hx)).1
  rw [← (books h).requests_eq] at hlt
  omega

/-- The failure that an answer brings is counted. -/
theorem lt_count_of_answer {x : Transfer} {a : CatalogAnswer} {f : FetchError}
    (hstep : Step t (.answer x a) u) (h : IsCharged x t)
    (hf : (t.downloads.receive x.key a).1 = .error f) : x.before < u.count x.key := by
  have hfails : (Event.answer x a).failsFor x.key = true := by
    cases hread : readEntry a with
    | ok entry => rw [Downloads.receive_of_ok hread] at hf; cases hf
    | error f => simp [Event.failsFor, hread, Except.toBool]
  have hcounted := hstep.count_of_failsFor hfails
  have hmost : t.limit ≤ Attempts.countLimit := t.downloads.attempts.limit_le
  have hlt := h.before_lt
  have hle := h.before_le
  omega

theorem Charged.step (h : Charged key since t) (hstep : Step t e u)
    (hreset : e ≠ .aside (.reset key)) : Charged key since u := by
  have hlimit := hstep.limit_eq
  have hcount := hstep.count_le hreset
  intro y hy hkey hsince
  subst hkey
  have hkeep : y ∈ t.transfers → IsCharged y u := fun hy => (h y hy rfl hsince).mono hlimit hcount
  cases hstep with
  | request starts =>
    obtain ⟨hallows, -, rfl⟩ := Downloads.request?_eq_some_iff.mp starts
    rcases List.mem_cons.mp hy with rfl | hy
    · exact ⟨Attempts.allows_iff.mp hallows, Nat.le_refl _, fun f hf => by cases hf⟩
    · exact hkeep hy
  | @ask x earlier later present started allowed =>
    rcases eq_or_mem_of_move present hy with rfl | hy
    · exact (h x (mem_of_present present) rfl hsince).move hlimit hcount fun f hf => by cases hf
    · exact hkeep hy
  | @refuse x earlier later present started spent =>
    rcases eq_or_mem_of_move present hy with rfl | hy
    · have hx := h x (mem_of_present present) rfl hsince
      have hspent : t.limit ≤ t.count x.key := Attempts.allows_eq_false_iff.mp spent
      exact hx.move hlimit hcount fun _ _ => Nat.lt_of_lt_of_le hx.before_lt hspent
    · exact hkeep hy
  | @answer x earlier later present asking a =>
    rcases eq_or_mem_of_move present hy with rfl | hy
    · have hx := h x (mem_of_present present) rfl hsince
      refine hx.move hlimit hcount fun f hf => ?_
      exact lt_count_of_answer (.answer present asking a) hx (Phase.finished.inj hf)
    · exact hkeep hy
  | deliver present finished => exact hkeep (mem_of_mem_remaining present hy)
  | aside a => exact hkeep hy

theorem charged (h : Reachable past t) (hrun : Run t es u) (hreset : .aside (.reset key) ∉ es) :
    Charged key t.requests u := by
  induction hrun with
  | nil => exact .start h key
  | concat hrun hstep ih =>
    simp only [List.mem_append, List.mem_singleton, not_or] at hreset
    exact (ih hreset.1).step hstep fun he => hreset.2 he.symm

/-- What a delivery of a download of its own key brings is progress. -/
theorem progressed_of_not_isStray {x : Transfer} {result : Except FetchError TemplateEntry}
    (h : IsCharged x t) (finished : x.phase = .finished result) (hstray : x.isStray = false) :
    Progressed x (t.deliver x result) := by
  cases result with
  | ok e =>
    have hkey : e.key = x.key := by simpa [Transfer.isStray, finished] using hstray
    exact .inl (by rw [misses_deliver_ok, if_pos hkey])
  | error f => exact .inr (.inl (h.counted f finished))

/-- An entry of another key brings no progress. -/
theorem progressed_deliver_of_isStray {x : Transfer} {result : Except FetchError TemplateEntry}
    (finished : x.phase = .finished result) (hstray : x.isStray = true) :
    Progressed x (t.deliver x result) ↔ Progressed x t := by
  cases result with
  | ok e =>
    have hkey : e.key ≠ x.key := by simpa [Transfer.isStray, finished] using hstray
    unfold Progressed
    rw [misses_deliver_ok, if_neg hkey]
    rfl
  | error f => simp [Transfer.isStray, finished] at hstray

/-! ## Many deliveries -/

/-- The deliveries of a target, of downloads from a number on, that left it missing although they
did not bring an entry of another key. -/
def failedTries (since : Nat) (target : TemplateKind × String) (es : List Event) : Nat :=
  es.countP fun e => e.missesFrom since target && !e.isStray

theorem failedTries_append (since : Nat) (target : TemplateKind × String) (es : List Event)
    (e : Event) : failedTries since target (es ++ [e]) =
      failedTries since target es + if e.missesFrom since target && !e.isStray then 1 else 0 := by
  unfold failedTries
  rw [List.countP_append, List.countP_singleton]

/-- Each failed try has cost an attempt of its own. -/
structure Paid (since : Nat) (target : TemplateKind × String) (es : List Event) (t : Traffic) :
    Prop where
  le_count : failedTries since target es ≤ t.count target.2
  le_limit : failedTries since target es ≤ t.limit
  le_before : ∀ x ∈ t.transfers, x.target = target → since ≤ x.number →
    failedTries since target es ≤ x.before

/-- A step that is no failed try keeps the attempts paid. -/
theorem Paid.keep {target : TemplateKind × String} (h : Paid since target es t)
    (hstep : Step t e u) (hreset : e ≠ .aside (.reset target.2))
    (htry : (e.missesFrom since target && !e.isStray) = false) :
    Paid since target (es ++ [e]) u := by
  have hlimit := hstep.limit_eq
  have hcount := hstep.count_le hreset
  have hsame : failedTries since target (es ++ [e]) = failedTries since target es := by
    rw [failedTries_append, htry]
    rfl
  refine ⟨hsame ▸ Nat.le_trans h.le_count hcount, hsame ▸ hlimit ▸ h.le_limit,
    fun y hy htarget hsince => ?_⟩
  rw [hsame]
  rcases hstep.mem_transfers hy with ⟨x, hx, phase, rfl⟩ | ⟨hbefore, -⟩
  · exact h.le_before x hx htarget hsince
  · subst htarget
    rw [hbefore]
    exact h.le_count

/-- A failed try was charged, and no other download of its target was on its way. -/
theorem Paid.deliver {x : Transfer} {missed : Bool} (h : Paid since x.target es t)
    (hbooks : Books past t) (hcharged : Charged x.key since t)
    (hstep : Step t (.deliver x missed) u) (hsince : since ≤ x.number)
    (hmissed : missed = true) (hstray : x.isStray = false) :
    Paid since x.target (es ++ [.deliver x missed]) u := by
  have hone : failedTries since x.target (es ++ [.deliver x missed]) =
      failedTries since x.target es + 1 := by
    rw [failedTries_append]
    simp [Event.missesFrom, Event.isStray, hmissed, hstray, hsince]
  cases hstep with
  | @deliver _ earlier later result present finished =>
    have hx := hcharged x (mem_of_present present) rfl hsince
    have hbefore := h.le_before x (mem_of_present present) rfl hsince
    have hlt : x.before < t.count x.key := by
      cases result with
      | error f => exact hx.counted f finished
      | ok e =>
        have hkey : e.key = x.key := by simpa [Transfer.isStray, finished] using hstray
        rw [misses_deliver_ok, if_pos hkey] at hmissed
        cases hmissed
    refine ⟨?_, ?_, fun y hy htarget _ => ?_⟩
    · rw [hone]
      exact Nat.lt_of_le_of_lt hbefore hlt
    · rw [hone]
      exact Nat.lt_of_le_of_lt hbefore hx.before_lt
    -- Another download of the target would have run beside this one.
    · have hnodup := hbooks.nodup
      rw [present, List.map_append, List.map_cons] at hnodup
      have hfresh := (List.nodup_cons.mp (List.nodup_middle.mp hnodup)).1
      rw [← List.map_append, ← htarget] at hfresh
      exact absurd (List.mem_map_of_mem hy) hfresh

theorem paid {kind : TemplateKind} (h : Reachable past t) (hrun : Run t es u)
    (hreset : .aside (.reset key) ∉ es) : Paid t.requests (kind, key) es u := by
  induction hrun with
  | nil =>
    exact ⟨Nat.zero_le _, Nat.zero_le _, fun _ _ _ _ => Nat.zero_le _⟩
  | @concat v w es e hrun hstep ih =>
    simp only [List.mem_append, List.mem_singleton, not_or] at hreset
    have hpaid := ih hreset.1
    by_cases htry : (e.missesFrom t.requests (kind, key) && !e.isStray) = true
    · cases e with
      | deliver x missed =>
        simp only [Event.missesFrom, Event.isStray, Bool.and_eq_true, decide_eq_true_eq,
          Bool.not_eq_true'] at htry
        obtain ⟨⟨⟨hmissed, hsince⟩, htarget⟩, hstray⟩ := htry
        obtain ⟨rfl, rfl⟩ := Prod.mk.inj htarget
        exact hpaid.deliver (books (h.append hrun)) (charged h hrun hreset.1) hstep hsince hmissed
          hstray
      | request kind key => cases htry
      | ask x => cases htry
      | refuse x => cases htry
      | answer x a => cases htry
      | aside a => cases htry
    · exact hpaid.keep hstep (fun he => hreset.2 he.symm) (Bool.eq_false_iff.mpr htry)

/-! ## Entries of another key -/

/-- A service can answer with an entry of another key. -/
theorem exists_stray (key : String) : ∃ a e, readEntry a = .ok e ∧ e.key ≠ key := by
  have ha : readEntry (.ok "\x7b\"key\":\"a\",\"ui_template\":\"\x7b\x7d\"\x7d") =
      .ok ⟨"a", "\x7b\x7d", "", .empty⟩ := rfl
  have hb : readEntry (.ok "\x7b\"key\":\"b\",\"ui_template\":\"\x7b\x7d\"\x7d") =
      .ok ⟨"b", "\x7b\x7d", "", .empty⟩ := rfl
  by_cases hkey : "a" = key
  · subst hkey
    exact ⟨_, _, hb, by decide⟩
  · exact ⟨_, _, ha, hkey⟩

/-- A target that is missing and may be asked for. -/
structure Wanting (kind : TemplateKind) (key : String) (t : Traffic) : Prop where
  missing : t.misses (kind, key) = true
  below : t.count key < t.limit
  idle : (kind, key) ∉ t.downloads.running

/-- The deliveries of a target that left it missing. -/
def missedTries (target : TemplateKind × String) (es : List Event) : Nat :=
  es.countP (·.missesFrom 0 target)

/-- A target can be asked for and be missing as before, with no attempt spent. -/
theorem Wanting.exists_cycle {kind : TemplateKind} (h : Wanting kind key t) :
    ∃ es u, Run t es u ∧ .aside (.reset key) ∉ es ∧ missedTries (kind, key) es = 1 ∧
      u.count key = t.count key ∧ Wanting kind key u := by
  obtain ⟨a, e, hread, hkey⟩ := exists_stray key
  let x : Transfer := ⟨t.requests, kind, key, t.count key, .started⟩
  let asked := (t.start kind key).withDownloads
    { t.downloads with running := (kind, key) :: t.downloads.running }
  have hrequest : Step t (.request kind key) asked :=
    .request (Downloads.request?_eq_some_iff.mpr ⟨Attempts.allows_iff.mpr h.below, h.idle, rfl⟩)
  let waiting (phase : Phase) : Traffic :=
    { asked with transfers := x.inPhase phase :: t.transfers }
  have hask : Step asked (.ask x) (waiting .asking) :=
    @Step.ask _ x [] t.transfers rfl rfl (Attempts.allows_iff.mpr h.below)
  have hanswer : Step (waiting .asking) (.answer (x.inPhase .asking) a)
      (waiting (.finished (.ok e))) := by
    have hstep := @Step.answer (waiting .asking) _ [] _ rfl rfl a
    rwa [Downloads.receive_of_ok hread] at hstep
  -- The entry goes under its own key, so the target is missing as before.
  have hmissed := misses_deliver_ok asked x e
  rw [if_neg hkey] at hmissed
  have hmissing : (asked.deliver x (.ok e)).misses (kind, key) = true := hmissed.trans h.missing
  have hdeliver : Step (waiting (.finished (.ok e))) (.deliver (x.inPhase (.finished (.ok e)))
      ((asked.deliver x (.ok e)).misses (kind, key))) { asked.deliver x (.ok e) with
        transfers := t.transfers } :=
    @Step.deliver _ _ [] _ _ rfl rfl
  rw [hmissing] at hdeliver
  refine ⟨_, _, (((Run.single hrequest).concat hask).concat hanswer).concat hdeliver, ?_, ?_, rfl,
    hmissing, h.below, ?_⟩
  · simp
  · simp [missedTries, Event.missesFrom, Transfer.target, x]
  · show (kind, key) ∉ ((kind, key) :: t.downloads.running).erase (kind, key)
    rw [List.erase_cons_head]
    exact h.idle

/-- A target can be asked for any number of times and be missing as before. -/
theorem Wanting.exists_cycles {kind : TemplateKind} (h : Wanting kind key t) (n : Nat) :
    ∃ es u, Run t es u ∧ .aside (.reset key) ∉ es ∧ missedTries (kind, key) es = n ∧
      u.count key = t.count key ∧ Wanting kind key u := by
  induction n with
  | zero => exact ⟨[], t, .nil, List.not_mem_nil, rfl, rfl, h⟩
  | succ n ih =>
    obtain ⟨es, u, hrun, hreset, htries, hcount, hu⟩ := ih
    obtain ⟨more, v, hmore, hkept, hone, hsame, hv⟩ := hu.exists_cycle
    refine ⟨es ++ more, v, hrun.append hmore, ?_, ?_, hsame.trans hcount, hv⟩
    · exact fun he => (List.mem_append.mp he).elim hreset hkept
    · rw [missedTries, List.countP_append]
      exact congrArg₂ (· + ·) htries hone

/-- A message whose template is missing waits for a download, if one may be asked for, which is
then called for. -/
theorem Wanting.resolve {kind : TemplateKind} {p : Payload} (h : Wanting kind p.key t)
    (s : StandInSettings) :
    ∃ body, (t.downloads.resolve kind p s).1 = .downloading body true := by
  have hnone : t.downloads.shelf.get? kind p.key = none := by
    simpa [misses, Shelf.contains, Table.contains, Shelf.get?] using h.missing
  have hidle : t.downloads.isRunning kind p.key = false :=
    Bool.eq_false_iff.mpr fun hr => h.idle (List.contains_iff_mem.mp hr)
  have hallows : t.downloads.attempts.allows p.key = true := Attempts.allows_iff.mpr h.below
  refine ⟨StandIn.downloading s.theme s.appearance s.height, ?_⟩
  simp only [Downloads.resolve, hnone, Downloads.notReady, hallows, hidle, if_true, Bool.not_false]

/-- Without an attempt left, a message whose template is missing has failed. -/
theorem resolve_of_spent {kind : TemplateKind} {p : Payload} (s : StandInSettings)
    (hmissing : t.misses (kind, p.key) = true) (hspent : t.limit ≤ t.count p.key) :
    (t.downloads.resolve kind p s).1 = Downloads.failed s (.missing p.key) := by
  have hnone : t.downloads.shelf.get? kind p.key = none := by
    simpa [misses, Shelf.contains, Table.contains, Shelf.get?] using hmissing
  have hallows : t.downloads.attempts.allows p.key = false :=
    Attempts.allows_eq_false_iff.mpr hspent
  simp only [Downloads.resolve, hnone, Downloads.notReady, hallows, Bool.false_eq_true, if_false]

/-! ## Progress -/

/-- While nobody forgets the failures of a key, a delivery is progress if it does not bring an entry
of another key, and else brings none. As many deliveries as the limit says may leave the key missing
without bringing an entry of another key, and then its messages have failed. With entries of another
key any number of deliveries may leave the key missing, and no attempt is spent. -/
theorem delivery_progress (h : Reachable past t) (hrun : Run t es u)
    (hreset : .aside (.reset key) ∉ es) :
    (∀ x missed v, Step u (.deliver x missed) v → x.key = key → t.requests ≤ x.number →
      (Progressed x v ↔ x.isStray = false ∨ Progressed x u)) ∧
    (∀ kind, failedTries t.requests (kind, key) es ≤ u.limit ∧
      (u.limit ≤ failedTries t.requests (kind, key) es → u.misses (kind, key) = true →
        ∀ p s, p.key = key →
          (u.downloads.resolve kind p s).1 = Downloads.failed s (.missing key))) ∧
    (∀ kind, Wanting kind key u → ∀ n, ∃ more v, Run u more v ∧ .aside (.reset key) ∉ more ∧
      missedTries (kind, key) more = n ∧ v.count key = u.count key ∧
      ∀ p s, p.key = key → ∃ body, (v.downloads.resolve kind p s).1 = .downloading body true) := by
  refine ⟨fun x missed v hstep hkey hsince => ?_,
    fun kind => ⟨?_, fun hspent hmissing p s hp => ?_⟩, fun kind hwanting n => ?_⟩
  · subst hkey
    cases hstep with
    | @deliver _ earlier later result present finished =>
      have hcharged := charged h hrun hreset x (mem_of_present present) rfl hsince
      show Progressed x (u.deliver x result) ↔ _
      by_cases hstray : x.isStray = true
      · rw [progressed_deliver_of_isStray finished hstray, hstray]
        simp
      · have hown := Bool.eq_false_iff.mpr hstray
        have hprogress := progressed_of_not_isStray hcharged finished hown
        exact ⟨fun _ => .inl hown, fun _ => hprogress⟩
  · exact (paid h hrun hreset).le_limit
  · have hpaid : Paid t.requests (kind, key) es u := paid h hrun hreset
    have hcount := hpaid.le_count
    subst hp
    exact resolve_of_spent s hmissing (Nat.le_trans hspent hcount)
  · obtain ⟨more, v, hmore, hkept, htries, hcount, hv⟩ := hwanting.exists_cycles n
    refine ⟨more, v, hmore, hkept, htries, hcount, fun p s hp => ?_⟩
    subst hp
    exact hv.resolve s

/-- With one attempt, two deliveries of entries of another key leave the key missing and the attempt
unspent. -/
theorem delivery_progress_of_strays :
    ∃ es u, Run (opening .empty (.ofLimit 1)) es u ∧ missedTries (.message, "a") es = 2 ∧
      u.count "a" = 0 := by
  have hopening : Reachable [] (opening .empty (.ofLimit 1)) := ⟨_, _, .nil⟩
  have hreset : Event.aside (.reset "a") ∉ [] := List.not_mem_nil
  have hprogress := delivery_progress hopening .nil hreset
  have hwanting : Wanting .message "a" (opening .empty (.ofLimit 1)) :=
    ⟨rfl, Nat.zero_lt_one, List.not_mem_nil⟩
  obtain ⟨es, u, hrun, -, htries, hcount, -⟩ := hprogress.2.2 .message hwanting 2
  exact ⟨es, u, hrun, htries, hcount⟩

end Traffic
end MessageCard
