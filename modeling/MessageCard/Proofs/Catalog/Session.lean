import MessageCard.Proofs.Catalog.Bookkeeping

/-!
# Sessions follow the traffic

A session runs its tasks from beginning to end and its queue in order, which is one way in which
downloads may proceed. What its tasks, the deliveries in its queue and its desk have to do with each
other is proved for all sessions at once: a relation between them that each single task and each
single delivery keeps is kept by every session.

The tasks of a session that have not run are downloads that have started, and the entries in its
queue are downloads that have finished; so whatever a session comes to is also what some traffic
comes to, and what holds in all traffic holds in all sessions.
-/
namespace MessageCard

namespace WorkQueue

variable {α σ : Type} (apply : α → σ → σ)

theorem finish_of_agenda_eq_nil {q : WorkQueue α σ} (h : q.agenda = []) : q.finish apply = q := by
  rw [finish, dif_pos h]

/-- A job that makes no orders only has its effect. -/
theorem perform_plain {q : WorkQueue α σ} (h : q.agenda = []) (effect : α) :
    q.perform apply (.plain effect) = { q with world := apply effect q.world } := by
  have hstart : q.start apply (.plain effect) = { q with world := apply effect q.world } := by
    simp only [start, Job.plain, List.map_nil, List.nil_append]
  rw [perform, hstart]
  exact finish_of_agenda_eq_nil apply h

/-- Jobs that make no orders run one after the other. -/
theorem finish_waiting {q : WorkQueue α σ} {effects : List α} {ran : Nat}
    (hwaiting : q.waiting = effects.map Job.plain) (hagenda : q.agenda = [.waiting ran]) :
    q.finish apply = ⟨[], [], q.counts ++ [ran + effects.length],
      effects.foldl (fun world effect => apply effect world) q.world⟩ := by
  obtain ⟨waiting, agenda, counts, world⟩ := q
  obtain rfl : waiting = effects.map Job.plain := hwaiting
  obtain rfl : agenda = [.waiting ran] := hagenda
  induction effects generalizing ran world with
  | nil =>
    rw [finish, dif_neg (List.cons_ne_nil _ _)]
    exact finish_of_agenda_eq_nil apply rfl
  | cons effect rest ih =>
    rw [finish, dif_neg (List.cons_ne_nil _ _), List.length_cons, Nat.add_comm rest.length,
      ← Nat.add_assoc]
    exact ih (apply effect world)

theorem runWaiting_plain {q : WorkQueue α σ} {effects : List α}
    (hwaiting : q.waiting = effects.map Job.plain) (hagenda : q.agenda = []) :
    (q.runWaiting apply .owner).2 = ⟨[], [], q.counts ++ [effects.length],
      effects.foldl (fun world effect => apply effect world) q.world⟩ := by
  show ({ q with agenda := .order .runWaiting :: q.agenda } : WorkQueue α σ).finish apply = _
  rw [finish, dif_neg (List.cons_ne_nil _ _), hagenda]
  have hfinish := finish_waiting apply (q := { q with agenda := [.waiting 0] }) hwaiting rfl
  rwa [Nat.zero_add] at hfinish

end WorkQueue

namespace Downloads

variable {σ : Type} {d : Downloads} {key : String}

theorem fetch_of_allows (h : d.attempts.allows key = true) (service : CatalogService σ)
    (kind : TemplateKind) (state : σ) :
    d.fetch service kind key state = ((d.receive key (service.entry kind key state).1).1,
      (d.receive key (service.entry kind key state).1).2, (service.entry kind key state).2) := by
  simp only [fetch, h, if_true]

theorem fetch_of_spent (h : d.attempts.allows key = false) (service : CatalogService σ)
    (kind : TemplateKind) (state : σ) :
    d.fetch service kind key state = (.error (.exhausted key), d, state) := by
  simp only [fetch, h, Bool.false_eq_true, if_false]

end Downloads

/-- An element that is seen through a function is in the list, between the others. -/
theorem exists_of_map_perm_cons {α β : Type} {f : α → β} {xs : List α} {b : β} {bs : List β}
    (h : (xs.map f).Perm (b :: bs)) :
    ∃ earlier x later, xs = earlier ++ x :: later ∧ f x = b ∧
      ((earlier ++ later).map f).Perm bs := by
  obtain ⟨x, hx, hf⟩ := List.mem_map.mp (h.symm.subset List.mem_cons_self)
  obtain ⟨earlier, later, rfl⟩ := List.append_of_mem hx
  refine ⟨earlier, x, later, rfl, hf, ?_⟩
  rw [List.map_append, List.map_cons, hf] at h
  rw [List.map_append]
  exact (List.perm_middle.symm.trans h).cons_inv

namespace Session

variable {σ : Type} {s r : Session σ} {tasks : List CatalogTask}

/-- What may happen to a session. -/
inductive Step : Session σ → Session σ → Prop where
  | request {s r : Session σ} {kind : TemplateKind} {key : String} {way : Delivering}
      (starts : s.request? kind key way = some r) : Step s r
  | requestList {s r : Session σ} {kind : TemplateKind} {token : String} {way : Delivering}
      (starts : s.requestList? kind token way = some r) : Step s r
  | fetch {s : Session σ} (kind : TemplateKind) (key : String) : Step s (s.fetch kind key).2
  | fetchList {s : Session σ} (kind : TemplateKind) (since : Option String) :
      Step s (s.fetchList kind since).2
  | runTasks {s : Session σ} (caller : Caller) : Step s (s.runTasks caller)
  | runWaiting {s : Session σ} : Step s s.runWaiting.2
  | aside {s : Session σ} (a : Aside) :
      Step s { s with queue := { s.queue with world := a.apply s.desk } }

/-- What a session can come to that has a shelf and attempts of its own and has done nothing. -/
inductive Reachable (service : CatalogService σ) (state : σ) (shelf : Shelf)
    (attempts : Attempts) : Session σ → Prop where
  | start : Reachable service state shelf attempts
      ⟨.ofWorld ⟨⟨shelf, attempts, []⟩, 0⟩, service, state, []⟩
  | next {s r : Session σ} :
      Reachable service state shelf attempts s → Step s r → Reachable service state shelf attempts r

theorem map_started_start (s : Session σ) (task : CatalogTask) (way : Delivering) :
    (s.start task way).started.map (·.1) = s.started.map (·.1) ++ [task] := List.map_append

/-- Tasks start no tasks. -/
theorem started_runTask (caller : Caller) (s : Session σ) (task : CatalogTask × Delivering) :
    (runTask caller s task).started = s.started := by
  obtain ⟨task, way⟩ := task
  cases task with
  | entry kind key => rfl
  | list kind since =>
    unfold runTask ask
    dsimp only
    cases (s.fetchList kind since).1.toOption with
    | none => rfl
    | some page => rfl

theorem started_foldl_runTask (caller : Caller) (tasks : List (CatalogTask × Delivering))
    (s : Session σ) : (tasks.foldl (runTask caller) s).started = s.started := by
  induction tasks generalizing s with
  | nil => rfl
  | cons task rest ih => rw [List.foldl_cons, ih, started_runTask]

/-- An entry that is fetched for the caller leaves at most a failure behind. -/
theorem fetch_cases (s : Session σ) (kind : TemplateKind) (key : String) :
    (s.fetch kind key).2.desk = s.desk ∨
      (s.fetch kind key).2.desk = (Aside.charge key).apply s.desk := by
  have hdesk : (s.fetch kind key).2.desk =
      { s.desk with downloads := (s.downloads.fetch s.service kind key s.state).2.1 } := rfl
  rw [hdesk]
  by_cases hallows : s.downloads.attempts.allows key = true
  · rw [Downloads.fetch_of_allows hallows]
    cases h : readEntry (s.service.entry kind key s.state).1 with
    | ok entry =>
      rw [Downloads.receive_of_ok h]
      exact .inl rfl
    | error f =>
      rw [Downloads.receive_of_error h]
      exact .inr rfl
  · rw [Downloads.fetch_of_spent (Bool.eq_false_iff.mpr hallows)]
    exact .inl rfl

/-- A relation between the tasks that have not run, the deliveries that wait and the desk. It is
kept by all that a session does, and does not look at the order of the deliveries. -/
structure IsMaintained (σ : Type) (R : List CatalogTask → List Delivery → Desk → Prop) :
    Prop where
  perm {tasks : List CatalogTask} {waiting others : List Delivery} {desk : Desk} :
    R tasks waiting desk → waiting.Perm others → R tasks others desk
  requestEntry {tasks : List CatalogTask} {waiting : List Delivery} {desk : Desk}
    {kind : TemplateKind} {key : String} {d : Downloads} :
    R tasks waiting desk → desk.downloads.request? kind key = some d →
      R (tasks ++ [.entry kind key]) waiting { desk with downloads := d }
  requestList {tasks : List CatalogTask} {waiting : List Delivery} {desk : Desk}
    {kind : TemplateKind} {token : String} {since : Option String} :
    R tasks waiting desk → desk.downloads.listStart? kind token = some since →
      R (tasks ++ [.list kind since]) waiting desk
  fetch {tasks : List CatalogTask} {waiting : List Delivery} {desk : Desk} {kind : TemplateKind}
    {key : String} (service : CatalogService σ) (state : σ) :
    R (.entry kind key :: tasks) waiting desk →
      R tasks (.entry kind key (desk.downloads.fetch service kind key state).1 :: waiting)
        { desk with downloads := (desk.downloads.fetch service kind key state).2.1 }
  come {tasks : List CatalogTask} {waiting : List Delivery} {desk : Desk} {kind : TemplateKind}
    {since : Option String} {list : CatalogPage} (service : CatalogService σ) (state : σ) :
    R (.list kind since :: tasks) waiting desk →
      (service.fetchAll kind since state).1 = .ok list → R tasks (.list kind list :: waiting) desk
  fail {tasks : List CatalogTask} {waiting : List Delivery} {desk : Desk} {kind : TemplateKind}
    {since : Option String} :
    R (.list kind since :: tasks) waiting desk → R tasks waiting desk
  deliver {tasks : List CatalogTask} {waiting : List Delivery} {desk : Desk} {d : Delivery} :
    R tasks (d :: waiting) desk → R tasks waiting (desk.deliver d)
  aside {tasks : List CatalogTask} {waiting : List Delivery} {desk : Desk} (a : Aside) :
    R tasks waiting desk → R tasks waiting (a.apply desk)

/-- A session between two calls, of which a relation holds, with some tasks to be run. -/
def Satisfies (R : List CatalogTask → List Delivery → Desk → Prop) (tasks : List CatalogTask)
    (s : Session σ) : Prop :=
  s.queue.agenda = [] ∧ ∃ waiting : List Delivery, s.queue.waiting = waiting.map Job.plain ∧
    R tasks waiting s.desk

namespace IsMaintained

variable {R : List CatalogTask → List Delivery → Desk → Prop}

/-- Everything that waits is delivered, in order. -/
theorem deliverAll {waiting : List Delivery} {desk : Desk} (h : IsMaintained σ R)
    (hR : R tasks waiting desk) :
    R tasks [] (waiting.foldl (fun desk d => desk.deliver d) desk) := by
  induction waiting generalizing desk with
  | nil => exact hR
  | cons d rest ih => exact ih (h.deliver hR)

/-- What is handed over is delivered at once, or waits for the owner. -/
theorem handOver {waiting : List Delivery} {d : Delivery} (h : IsMaintained σ R)
    (hagenda : s.queue.agenda = []) (hwaiting : s.queue.waiting = waiting.map Job.plain)
    (hR : R tasks (d :: waiting) s.desk) (caller : Caller) (way : Delivering) :
    Satisfies R tasks (s.handOver caller way d) := by
  have hnow : Satisfies R tasks { s with queue := s.queue.perform Desk.deliver (.plain d) } := by
    rw [WorkQueue.perform_plain Desk.deliver hagenda]
    exact ⟨hagenda, waiting, hwaiting, h.deliver hR⟩
  have hlater : Satisfies R tasks { s with queue := s.queue.enqueue (.plain d) } := by
    refine ⟨hagenda, waiting ++ [d], ?_, h.perm hR (List.perm_append_singleton _ _).symm⟩
    rw [List.map_append, ← hwaiting]
    rfl
  cases way with
  | atOnce => exact hnow
  | onOwner =>
    cases caller with
    | owner => exact hnow
    | other => exact hlater

theorem runTask {task : CatalogTask × Delivering} (h : IsMaintained σ R)
    (hs : Satisfies R (task.1 :: tasks) s) (caller : Caller) :
    Satisfies R tasks (runTask caller s task) := by
  obtain ⟨hagenda, waiting, hwaiting, hR⟩ := hs
  obtain ⟨task, way⟩ := task
  cases task with
  | entry kind key =>
    have hfetched := h.fetch s.service s.state hR
    exact h.handOver (s := (s.fetch kind key).2) hagenda hwaiting hfetched caller way
  | list kind since =>
    unfold Session.runTask ask
    dsimp only
    cases hresult : (s.fetchList kind since).1 with
    | error e => exact ⟨hagenda, waiting, hwaiting, h.fail hR⟩
    | ok list =>
      have hcome := h.come s.service s.state hR hresult
      exact h.handOver (s := (s.fetchList kind since).2) hagenda hwaiting hcome caller way

theorem foldl_runTask {started : List (CatalogTask × Delivering)} (h : IsMaintained σ R)
    (hs : Satisfies R (started.map (·.1)) s) (caller : Caller) :
    Satisfies R [] (started.foldl (Session.runTask caller) s) := by
  induction started generalizing s with
  | nil => exact hs
  | cons task rest ih => exact ih (h.runTask hs caller)

theorem step (h : IsMaintained σ R) (hs : Satisfies R (s.started.map (·.1)) s)
    (hstep : Step s r) : Satisfies R (r.started.map (·.1)) r := by
  obtain ⟨hagenda, waiting, hwaiting, hR⟩ := hs
  cases hstep with
  | request starts =>
    obtain ⟨d, hd, rfl⟩ := Option.map_eq_some_iff.mp starts
    refine ⟨hagenda, waiting, hwaiting, ?_⟩
    rw [map_started_start]
    exact h.requestEntry hR hd
  | requestList starts =>
    obtain ⟨since, hsince, rfl⟩ := Option.map_eq_some_iff.mp starts
    refine ⟨hagenda, waiting, hwaiting, ?_⟩
    rw [map_started_start]
    exact h.requestList hR hsince
  | fetch kind key =>
    refine ⟨hagenda, waiting, hwaiting, ?_⟩
    rcases s.fetch_cases kind key with hdesk | hdesk
    · rw [hdesk]
      exact hR
    · rw [hdesk]
      exact h.aside (.charge key) hR
  | fetchList kind since => exact ⟨hagenda, waiting, hwaiting, hR⟩
  | runTasks caller =>
    have hstarted := started_foldl_runTask caller s.started { s with started := [] }
    rw [runTasks, hstarted]
    have hrunning : Satisfies R (s.started.map (·.1)) { s with started := [] } :=
      ⟨hagenda, waiting, hwaiting, hR⟩
    exact h.foldl_runTask hrunning caller
  | runWaiting =>
    have hqueue := WorkQueue.runWaiting_plain Desk.deliver hwaiting hagenda
    have hrest : s.runWaiting.2 = { s with queue := (s.queue.runWaiting Desk.deliver .owner).2 } :=
      rfl
    rw [hrest, hqueue]
    exact ⟨rfl, [], rfl, h.deliverAll hR⟩
  | aside a => exact ⟨hagenda, waiting, hwaiting, h.aside a hR⟩

/-- What holds of a desk at the beginning holds of every session that comes about. -/
theorem satisfies {service : CatalogService σ} {state : σ} {shelf : Shelf} {attempts : Attempts}
    (h : IsMaintained σ R) (hstart : R [] [] ⟨⟨shelf, attempts, []⟩, 0⟩)
    (hs : Reachable service state shelf attempts s) : Satisfies R (s.started.map (·.1)) s := by
  induction hs with
  | start => exact ⟨rfl, [], rfl, hstart⟩
  | next _ hstep ih => exact h.step ih hstep

end IsMaintained
end Session

/-! ## Traffic -/

/-- What is known of a download in a session. -/
def Transfer.view (x : Transfer) : TemplateKind × String × Phase := (x.kind, x.key, x.phase)

def CatalogTask.view? : CatalogTask → Option (TemplateKind × String × Phase)
  | .entry kind key => some (kind, key, .started)
  | .list _ _ => none

def Delivery.view? : Delivery → Option (TemplateKind × String × Phase)
  | .entry kind key result => some (kind, key, .finished result)
  | .list _ _ => none

theorem mem_filterMap_task {tasks : List CatalogTask} {kind : TemplateKind} {key : String}
    {phase : Phase} : (kind, key, phase) ∈ tasks.filterMap CatalogTask.view? ↔
      phase = .started ∧ .entry kind key ∈ tasks := by
  rw [List.mem_filterMap]
  constructor
  · rintro ⟨task, hmem, hview⟩
    cases task with
    | entry kind key =>
      obtain ⟨rfl, rfl, rfl⟩ : kind = _ ∧ key = _ ∧ Phase.started = phase := by
        simpa [CatalogTask.view?] using hview
      exact ⟨rfl, hmem⟩
    | list kind since => cases hview
  · rintro ⟨rfl, hmem⟩
    exact ⟨_, hmem, rfl⟩

theorem mem_filterMap_delivery {waiting : List Delivery} {kind : TemplateKind} {key : String}
    {phase : Phase} : (kind, key, phase) ∈ waiting.filterMap Delivery.view? ↔
      ∃ result, phase = .finished result ∧ .entry kind key result ∈ waiting := by
  rw [List.mem_filterMap]
  constructor
  · rintro ⟨d, hmem, hview⟩
    cases d with
    | entry kind key result =>
      obtain ⟨rfl, rfl, rfl⟩ : kind = _ ∧ key = _ ∧ Phase.finished result = phase := by
        simpa [Delivery.view?] using hview
      exact ⟨result, rfl, hmem⟩
    | list kind page => cases hview
  · rintro ⟨result, rfl, hmem⟩
    exact ⟨_, hmem, rfl⟩

/-- Tasks that have not run and deliveries that wait are the downloads on their way. -/
structure Follows (tasks : List CatalogTask) (waiting : List Delivery) (desk : Desk)
    (t : Traffic) : Prop where
  desk_eq : t.desk = desk
  views : (t.transfers.map Transfer.view).Perm
    (tasks.filterMap CatalogTask.view? ++ waiting.filterMap Delivery.view?)

namespace Follows

variable {tasks : List CatalogTask} {waiting : List Delivery} {desk : Desk} {t : Traffic}

theorem perm {others : List Delivery} (h : Follows tasks waiting desk t)
    (hperm : waiting.Perm others) : Follows tasks others desk t :=
  ⟨h.desk_eq, h.views.trans ((hperm.filterMap _).append_left _)⟩

/-- A download is asked for. -/
theorem request {kind : TemplateKind} {key : String} {d : Downloads}
    (h : Follows tasks waiting desk t) (starts : desk.downloads.request? kind key = some d) :
    ∃ es u, Traffic.Run t es u ∧
      Follows (tasks ++ [.entry kind key]) waiting { desk with downloads := d } u := by
  obtain ⟨rfl, hviews⟩ := h
  refine ⟨_, _, .single (.request starts), rfl, ?_⟩
  show ((kind, key, Phase.started) :: t.transfers.map Transfer.view).Perm _
  rw [List.filterMap_append, List.append_assoc]
  exact (hviews.cons _).trans List.perm_middle.symm

/-- Tasks that ask for lists are no downloads. -/
theorem requestList {kind : TemplateKind} {since : Option String}
    (h : Follows tasks waiting desk t) : Follows (tasks ++ [.list kind since]) waiting desk t := by
  have hnone : [CatalogTask.list kind since].filterMap CatalogTask.view? = [] := rfl
  refine ⟨h.desk_eq, ?_⟩
  rw [List.filterMap_append, hnone, List.append_nil]
  exact h.views

theorem list {kind : TemplateKind} {since : Option String}
    (h : Follows (.list kind since :: tasks) waiting desk t) : Follows tasks waiting desk t :=
  ⟨h.desk_eq, h.views⟩

/-- A list that has come waits, too. -/
theorem page (h : Follows tasks waiting desk t) (kind : TemplateKind) (page : CatalogPage) :
    Follows tasks (.list kind page :: waiting) desk t :=
  ⟨h.desk_eq, h.views⟩

/-- A download that has run is known of as finished. -/
theorem views_inPhase {x : Transfer} {earlier later : List Transfer}
    (hrest : ((earlier ++ later).map Transfer.view).Perm
      (tasks.filterMap CatalogTask.view? ++ waiting.filterMap Delivery.view?))
    (result : Except FetchError TemplateEntry) :
    ((earlier ++ x.inPhase (.finished result) :: later).map Transfer.view).Perm
      (tasks.filterMap CatalogTask.view? ++
        (Delivery.entry x.kind x.key result :: waiting).filterMap Delivery.view?) := by
  have hviews := hrest.cons (x.kind, x.key, Phase.finished result)
  rw [List.map_append] at hviews
  rw [List.map_append, List.map_cons]
  exact (List.perm_middle.trans hviews).trans List.perm_middle.symm

/-- A download runs up to its delivery. -/
theorem fetch {σ : Type} {kind : TemplateKind} {key : String}
    (h : Follows (.entry kind key :: tasks) waiting desk t) (service : CatalogService σ)
    (state : σ) :
    ∃ es u, Traffic.Run t es u ∧
      Follows tasks (.entry kind key (desk.downloads.fetch service kind key state).1 :: waiting)
        { desk with downloads := (desk.downloads.fetch service kind key state).2.1 } u := by
  obtain ⟨rfl, hviews⟩ := h
  obtain ⟨earlier, x, later, present, hview, hrest⟩ := exists_of_map_perm_cons hviews
  obtain ⟨rfl, rfl, hphase⟩ : x.kind = kind ∧ x.key = key ∧ x.phase = .started := by
    simpa [Transfer.view] using hview
  by_cases hallows : t.desk.downloads.attempts.allows x.key = true
  · have hask := Traffic.Step.ask present hphase hallows
    have hanswer := @Traffic.Step.answer
      { t with transfers := earlier ++ x.inPhase .asking :: later } (x.inPhase .asking) earlier
      later rfl rfl (service.entry x.kind x.key state).1
    rw [Downloads.fetch_of_allows hallows]
    exact ⟨_, _, (Traffic.Run.single hask).concat hanswer, rfl, views_inPhase hrest _⟩
  · have hspent := Bool.eq_false_iff.mpr hallows
    rw [Downloads.fetch_of_spent hspent]
    exact ⟨_, _, .single (.refuse present hphase hspent), rfl, views_inPhase hrest _⟩

/-- The first delivery that waits is made. -/
theorem deliver {d : Delivery} (h : Follows tasks (d :: waiting) desk t) :
    ∃ es u, Traffic.Run t es u ∧ Follows tasks waiting (desk.deliver d) u := by
  obtain ⟨rfl, hviews⟩ := h
  cases d with
  | list kind page =>
    exact ⟨_, _, .single (.aside (.list kind page)), rfl, hviews⟩
  | entry kind key result =>
    obtain ⟨earlier, x, later, present, hview, hrest⟩ :=
      exists_of_map_perm_cons (hviews.trans List.perm_middle)
    obtain ⟨rfl, rfl, hphase⟩ : x.kind = kind ∧ x.key = key ∧ x.phase = .finished result := by
      simpa [Transfer.view] using hview
    exact ⟨_, _, .single (.deliver present hphase), rfl, hrest⟩

end Follows

namespace Session

variable {σ : Type} {s : Session σ} {t : Traffic}

/-- A session between two calls follows the traffic, with some tasks to be run. -/
def IsFollowing (tasks : List CatalogTask) (s : Session σ) (t : Traffic) : Prop :=
  s.queue.agenda = [] ∧ ∃ waiting : List Delivery, s.queue.waiting = waiting.map Job.plain ∧
    Follows tasks waiting s.desk t

/-- What a session does, some traffic does, too. -/
theorem isMaintained_follows (start : Traffic) : IsMaintained σ fun tasks waiting desk =>
    ∃ past t, Traffic.Run start past t ∧ Follows tasks waiting desk t where
  perm := fun ⟨past, t, hrun, ht⟩ hperm => ⟨past, t, hrun, ht.perm hperm⟩
  requestEntry := fun ⟨past, t, hrun, ht⟩ starts => by
    obtain ⟨es, u, hmore, hu⟩ := ht.request starts
    exact ⟨past ++ es, u, hrun.append hmore, hu⟩
  requestList := fun ⟨past, t, hrun, ht⟩ _ => ⟨past, t, hrun, ht.requestList⟩
  fetch service state := fun ⟨past, t, hrun, ht⟩ => by
    obtain ⟨es, u, hmore, hu⟩ := ht.fetch service state
    exact ⟨past ++ es, u, hrun.append hmore, hu⟩
  come _ _ := fun ⟨past, t, hrun, ht⟩ _ => ⟨past, t, hrun, ht.list.page _ _⟩
  fail := fun ⟨past, t, hrun, ht⟩ => ⟨past, t, hrun, ht.list⟩
  deliver := fun ⟨past, t, hrun, ht⟩ => by
    obtain ⟨es, u, hmore, hu⟩ := ht.deliver
    exact ⟨past ++ es, u, hrun.append hmore, hu⟩
  aside a := fun ⟨past, t, hrun, ht⟩ =>
    ⟨past ++ [.aside a], { t with desk := a.apply t.desk }, hrun.concat (.aside a),
      congrArg a.apply ht.desk_eq, ht.views⟩

/-- Whatever a session comes to, some traffic comes to, too. -/
theorem exists_traffic {service : CatalogService σ} {state : σ} {shelf : Shelf}
    {attempts : Attempts} (h : Reachable service state shelf attempts s) :
    ∃ past t, Traffic.Run (.opening shelf attempts) past t ∧
      IsFollowing (s.started.map (·.1)) s t := by
  have hstart : Follows [] [] ⟨⟨shelf, attempts, []⟩, 0⟩ (.opening shelf attempts) := ⟨rfl, .nil⟩
  have hmaintained : IsMaintained σ _ := isMaintained_follows (.opening shelf attempts)
  obtain ⟨hagenda, waiting, hwaiting, past, t, hrun, ht⟩ :=
    hmaintained.satisfies ⟨[], _, .nil, hstart⟩ h
  exact ⟨past, t, hrun, hagenda, waiting, hwaiting, ht⟩

/-- The running downloads of a session are those whose task has not run and those whose outcome
waits in the queue. -/
theorem mem_running_iff {service : CatalogService σ} {state : σ} {shelf : Shelf}
    {attempts : Attempts} (h : Reachable service state shelf attempts s) {kind : TemplateKind}
    {key : String} :
    (kind, key) ∈ s.downloads.running ↔ (∃ way, (.entry kind key, way) ∈ s.started) ∨
      ∃ result, Job.plain (.entry kind key result) ∈ s.queue.waiting := by
  obtain ⟨past, t, hrun, -, waiting, hwaiting, hdesk, hviews⟩ := exists_traffic h
  have hbooks := Traffic.books ⟨shelf, attempts, hrun⟩
  have hrunning : s.downloads.running = t.downloads.running :=
    congrArg (·.downloads.running) hdesk.symm
  have hmem : (kind, key) ∈ t.downloads.running ↔
      ∃ phase, (kind, key, phase) ∈ t.transfers.map Transfer.view := by
    rw [hbooks.running.mem_iff]
    simp [Transfer.view, Transfer.target]
  have htask : .entry kind key ∈ s.started.map (·.1) ↔
      ∃ way, (CatalogTask.entry kind key, way) ∈ s.started := by
    simp [List.mem_map]
  have hdelivery (result : Except FetchError TemplateEntry) :
      Job.plain (.entry kind key result) ∈ s.queue.waiting ↔
        .entry kind key result ∈ waiting := by
    simp [hwaiting, List.mem_map, Job.plain]
  rw [hrunning, hmem]
  simp only [hviews.mem_iff, List.mem_append, mem_filterMap_task, mem_filterMap_delivery, htask,
    hdelivery]
  constructor
  · rintro ⟨phase, ⟨-, h⟩ | ⟨result, -, h⟩⟩
    · exact .inl h
    · exact .inr ⟨result, h⟩
  · rintro (h | ⟨result, h⟩)
    · exact ⟨.started, .inl ⟨rfl, h⟩⟩
    · exact ⟨.finished result, .inr ⟨result, rfl, h⟩⟩

end Session
end MessageCard
