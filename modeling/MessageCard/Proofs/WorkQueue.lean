import Mathlib.Data.List.Basic
import MessageCard.WorkQueue

/-!
# No job is lost or overtaken

The jobs that have been taken out of the queue and those that wait in it are, in this order, all
that were ever handed over. Whoever asks the owner to run what is waiting, and is not itself part of
such a run, finds the queue empty afterwards: while a run goes on every other one ends at once, so
every job that starts from the queue is one of the run's own.
-/
namespace MessageCard

/-! ## Events -/

namespace JobEvent

variable {α : Type}

/-- The jobs handed over. -/
def handedOver (es : List (JobEvent α)) : List (Job α) :=
  es.filterMap fun
    | .enqueued j => some j
    | _ => none

/-- The jobs that waited and then started. -/
def fromQueue (es : List (JobEvent α)) : List (Job α) :=
  es.filterMap fun
    | .taken j => some j
    | _ => none

/-- The jobs that started. -/
def started (es : List (JobEvent α)) : List (Job α) :=
  es.filterMap fun
    | .enqueued _ => none
    | .taken j | .begun j => some j

@[simp] theorem handedOver_nil : handedOver ([] : List (JobEvent α)) = [] := rfl

@[simp] theorem fromQueue_nil : fromQueue ([] : List (JobEvent α)) = [] := rfl

@[simp] theorem started_nil : started ([] : List (JobEvent α)) = [] := rfl

@[simp] theorem handedOver_append (es fs : List (JobEvent α)) :
    handedOver (es ++ fs) = handedOver es ++ handedOver fs := List.filterMap_append

@[simp] theorem fromQueue_append (es fs : List (JobEvent α)) :
    fromQueue (es ++ fs) = fromQueue es ++ fromQueue fs := List.filterMap_append

@[simp] theorem started_append (es fs : List (JobEvent α)) :
    started (es ++ fs) = started es ++ started fs := List.filterMap_append

end JobEvent

namespace WorkQueue

open JobEvent

variable {α σ : Type} {apply : α → σ → σ} {q r : WorkQueue α σ} {es fs : List (JobEvent α)}
  {rest : List (Agenda α)}

/-! ## One step -/

/-- The kinds of steps by which the owner goes on with its agenda, each with what happens to a
job. -/
inductive Works (apply : α → σ → σ) :
    WorkQueue α σ → Option (JobEvent α) → WorkQueue α σ → Prop where
  | enqueues {waiting rest counts world} (effect : α) (orders : List (Order α)) :
      Works apply ⟨waiting, .order (.enqueue effect orders) :: rest, counts, world⟩
        (some (.enqueued ⟨effect, orders⟩)) ⟨waiting ++ [⟨effect, orders⟩], rest, counts, world⟩
  | begins {waiting rest counts world} (effect : α) (orders : List (Order α)) :
      Works apply ⟨waiting, .order (.run effect orders) :: rest, counts, world⟩
        (some (.begun ⟨effect, orders⟩))
        ⟨waiting, orders.map .order ++ rest, counts, apply effect world⟩
  | refuses {waiting rest counts world} (nested : rest.any Agenda.isWaiting = true) :
      Works apply ⟨waiting, .order .runWaiting :: rest, counts, world⟩ none
        ⟨waiting, rest, counts ++ [0], world⟩
  | opens {waiting rest counts world} (outermost : rest.any Agenda.isWaiting = false) :
      Works apply ⟨waiting, .order .runWaiting :: rest, counts, world⟩ none
        ⟨waiting, .waiting 0 :: rest, counts, world⟩
  | closes {ran rest counts world} :
      Works apply ⟨[], .waiting ran :: rest, counts, world⟩ none
        ⟨[], rest, counts ++ [ran], world⟩
  | takes {waiting ran rest counts world} (j : Job α) :
      Works apply ⟨j :: waiting, .waiting ran :: rest, counts, world⟩ (some (.taken j))
        ⟨waiting, j.orders.map .order ++ .waiting (ran + 1) :: rest, counts,
          apply j.effect world⟩

theorem works (apply : α → σ → σ) (busy : q.agenda ≠ []) :
    Works apply q q.event? (q.step apply) := by
  obtain ⟨waiting, agenda, counts, world⟩ := q
  cases agenda with
  | nil => exact absurd rfl busy
  | cons point rest =>
    cases point with
    | order o =>
      cases o with
      | enqueue effect orders => exact .enqueues effect orders
      | run effect orders => exact .begins effect orders
      | runWaiting =>
        simp only [event?, step]
        split
        · next nested => exact .refuses nested
        · next outermost => exact .opens (Bool.not_eq_true _ ▸ outermost)
    | waiting ran =>
      cases waiting with
      | nil => exact .closes
      | cons j waiting => exact .takes j

/-- A step of the owner takes the first point off the agenda, and may put others in its place. -/
theorem Works.agenda_eq {e : Option (JobEvent α)} (h : Works apply q e r) :
    ∃ point tail more, q.agenda = point :: tail ∧ r.agenda = more ++ tail := by
  cases h with
  | enqueues => exact ⟨_, _, [], rfl, rfl⟩
  | begins => exact ⟨_, _, _, rfl, rfl⟩
  | refuses => exact ⟨_, _, [], rfl, rfl⟩
  | opens => exact ⟨_, _, [_], rfl, rfl⟩
  | closes => exact ⟨_, _, [], rfl, rfl⟩
  | takes => exact ⟨_, _, _, rfl, List.append_cons ..⟩

/-- The jobs taken and those that then wait are the jobs that waited and those handed over. -/
theorem Step.fromQueue_append_waiting (h : Step apply q es r) :
    fromQueue es ++ r.waiting = q.waiting ++ handedOver es := by
  cases h with
  | work busy =>
    have hworks := works apply busy
    generalize q.event? = e, q.step apply = r at hworks ⊢
    cases hworks <;> simp [fromQueue, handedOver]
  | enqueue j => rfl
  | ask o free => simp

/-- A job takes effect when it starts. -/
theorem Step.world_eq (h : Step apply q es r) :
    r.world = (started es).foldl (fun world j => apply j.effect world) q.world := by
  cases h with
  | work busy =>
    have hworks := works apply busy
    generalize q.event? = e, q.step apply = r at hworks ⊢
    cases hworks <;> simp [started]
  | enqueue j => rfl
  | ask o free => rfl

theorem any_isWaiting_map_order (orders : List (Order α)) :
    (orders.map Agenda.order).any Agenda.isWaiting = false := by
  simp [List.any_map, Agenda.isWaiting]

/-- While what is waiting is run, no other run goes on above it on the agenda. Such a step counts
the job that it takes, unless nothing waits any more, when the run ends with its count. -/
theorem Step.of_waiting (h : Step apply q es r) {top : List (Agenda α)} {ran : Nat}
    (hagenda : q.agenda = top ++ .waiting ran :: rest) (htop : top.any Agenda.isWaiting = false) :
    (∃ top', r.agenda = top' ++ .waiting (ran + (fromQueue es).length) :: rest ∧
      top'.any Agenda.isWaiting = false) ∨
    (r.agenda = rest ∧ r.waiting = [] ∧ fromQueue es = [] ∧ r.counts = q.counts ++ [ran]) := by
  cases h with
  | enqueue j => exact .inl ⟨top, hagenda, htop⟩
  | ask o free => exact .inl ⟨.order o :: top, congrArg (.order o :: ·) hagenda, htop⟩
  | work busy =>
    have hworks := works apply busy
    generalize q.event? = e, q.step apply = r at hworks ⊢
    cases top with
    | nil =>
      -- The run itself goes on: it takes the next job or it is over.
      cases hworks with
      | closes =>
        cases hagenda
        exact .inr ⟨rfl, rfl, rfl, rfl⟩
      | takes j =>
        cases hagenda
        exact .inl ⟨_, rfl, any_isWaiting_map_order j.orders⟩
      | enqueues | begins | refuses | opens => cases hagenda
    | cons point top =>
      -- A job of the run is at work.
      obtain ⟨hpoint, hbelow⟩ := Bool.or_eq_false_iff.mp htop
      cases hworks with
      | enqueues | refuses =>
        cases hagenda
        exact .inl ⟨top, rfl, hbelow⟩
      | begins effect orders =>
        cases hagenda
        refine .inl ⟨orders.map .order ++ top, (List.append_assoc ..).symm, ?_⟩
        rw [List.any_append, any_isWaiting_map_order, hbelow, Bool.or_false]
      | opens outermost =>
        cases hagenda
        simp [Agenda.isWaiting] at outermost
      | closes | takes =>
        cases hagenda
        cases hpoint

/-! ## Runs -/

/-- The jobs taken out of the queue and those that wait in it are all that were handed over. -/
theorem Run.fromQueue_append_waiting (h : Run apply q es r) :
    fromQueue es ++ r.waiting = q.waiting ++ handedOver es := by
  induction h with
  | refl q => simp
  | @cons q r s es fs first _ ih =>
    calc fromQueue (es ++ fs) ++ s.waiting
        = fromQueue es ++ (fromQueue fs ++ s.waiting) := by simp
      _ = fromQueue es ++ r.waiting ++ handedOver fs := by rw [ih, List.append_assoc]
      _ = q.waiting ++ handedOver (es ++ fs) := by simp [first.fromQueue_append_waiting]

/-- The jobs take effect in the order in which they start. -/
theorem Run.world_eq (h : Run apply q es r) :
    r.world = (started es).foldl (fun world j => apply j.effect world) q.world := by
  induction h with
  | refl q => rfl
  | cons first _ ih => rw [ih, first.world_eq, started_append, List.foldl_append]

theorem RunUntil.run (h : RunUntil apply rest q es r) : Run apply q es r := by
  induction h with
  | reached => exact .refl _
  | cons _ first _ ih => exact .cons first ih

/-- A run of what is waiting ends when nothing waits, and counts the jobs that it has taken. -/
theorem RunUntil.of_waiting (h : RunUntil apply rest q es r) {top : List (Agenda α)} {ran : Nat}
    (hagenda : q.agenda = top ++ .waiting ran :: rest) (htop : top.any Agenda.isWaiting = false) :
    r.waiting = [] ∧ r.counts.getLast? = some (ran + (fromQueue es).length) := by
  induction h generalizing top ran with
  | reached hreached =>
    have hlength := congrArg List.length (hagenda.symm.trans hreached)
    simp at hlength
    omega
  | cons _ first more ih =>
    rcases first.of_waiting hagenda htop with
      ⟨top', hagenda', htop'⟩ | ⟨hrest, hempty, hes, hcounts⟩
    · have hmore := ih hagenda' htop'
      simpa [Nat.add_assoc] using hmore
    · cases more with
      | reached => simp [hempty, hes, hcounts]
      | cons hne => exact absurd hrest hne

/-- The owner comes to the end of whatever it has begun. -/
theorem exists_runUntil (apply : α → σ → σ) (rest : List (Agenda α)) (q : WorkQueue α σ)
    (hrest : rest <:+ q.agenda) : ∃ es r, RunUntil apply rest q es r := by
  induction hweight : q.weight using Nat.strongRecOn generalizing q with
  | ind n ih =>
    by_cases hreached : q.agenda = rest
    · exact ⟨[], q, .reached hreached⟩
    · have busy : q.agenda ≠ [] := by
        intro hnil
        rw [hnil] at hrest hreached
        exact hreached (List.suffix_nil.mp hrest).symm
      obtain ⟨point, tail, more, hagenda, hnext⟩ := (works apply busy).agenda_eq
      have htail : rest <:+ tail := by
        rw [hagenda] at hrest hreached
        exact (List.suffix_cons_iff.mp hrest).resolve_left (Ne.symm hreached)
      have hlt := weight_step_lt apply q busy
      obtain ⟨es, r, hrun⟩ := ih _ (hweight ▸ hlt) (q.step apply)
        (hnext ▸ htail.trans (List.suffix_append more tail)) rfl
      exact ⟨_, r, .cons hreached (.work busy) hrun⟩

/-- With nobody else at work the owner goes through its whole agenda. -/
theorem exists_runUntil_finish (apply : α → σ → σ) (q : WorkQueue α σ) :
    ∃ es, RunUntil apply [] q es (q.finish apply) := by
  fun_induction finish apply q with
  | case1 q hidle => exact ⟨[], .reached hidle⟩
  | case2 q busy ih =>
    obtain ⟨es, hrun⟩ := ih
    exact ⟨_, .cons busy (.work busy) hrun⟩

/-! ## Asking for what is waiting -/

theorem step_of_nested (apply : α → σ → σ) (hagenda : q.agenda = .order .runWaiting :: rest)
    (hnested : rest.any Agenda.isWaiting = true) :
    q.step apply = { q with agenda := rest, counts := q.counts ++ [0] } := by
  simp [step, hagenda, hnested]

theorem step_of_outermost (apply : α → σ → σ) (hagenda : q.agenda = .order .runWaiting :: rest)
    (houtermost : rest.any Agenda.isWaiting = false) :
    q.step apply = { q with agenda := .waiting 0 :: rest } := by
  simp [step, hagenda, houtermost]

/-- A run of what is waiting takes what waits at its beginning and what is handed over while it goes
on, and counts no other job. -/
theorem RunUntil.of_outermost (hagenda : q.agenda = .order .runWaiting :: rest)
    (houtermost : rest.any Agenda.isWaiting = false)
    (h : RunUntil apply rest (q.step apply) fs r) :
    fromQueue fs = q.waiting ++ handedOver fs ∧ r.waiting = [] ∧
      r.counts.getLast? = some (fromQueue fs).length := by
  rw [step_of_outermost apply hagenda houtermost] at h
  have hopened : ({ q with agenda := .waiting 0 :: rest } : WorkQueue α σ).agenda =
      [] ++ .waiting 0 :: rest := rfl
  obtain ⟨hempty, hcount⟩ := h.of_waiting hopened rfl
  have hjobs := h.run.fromQueue_append_waiting
  rw [hempty, List.append_nil] at hjobs
  exact ⟨hjobs, hempty, by simpa using hcount⟩

/-- The owner that asks while it is idle gets the number of the jobs that it has run, which are all
that waited and all that were handed over meanwhile. -/
theorem exists_runUntil_runWaiting (apply : α → σ → σ) (hidle : q.agenda = []) :
    ∃ fs r, RunUntil apply [] { q with agenda := [.waiting 0] } fs r ∧
      q.runWaiting apply .owner = ((fromQueue fs).length, r) ∧
      fromQueue fs = q.waiting ++ handedOver fs ∧ r.waiting = [] := by
  let asked : WorkQueue α σ := { q with agenda := .order .runWaiting :: q.agenda }
  have hagenda : asked.agenda = [.order .runWaiting] := congrArg (_ :: ·) hidle
  have hfinish : asked.finish apply = (asked.step apply).finish apply := by
    rw [finish, dif_neg (by simp [hagenda])]
  have hstep : asked.step apply = { q with agenda := [.waiting 0] } :=
    step_of_outermost apply hagenda rfl
  obtain ⟨fs, hrun⟩ := exists_runUntil_finish apply (asked.step apply)
  obtain ⟨hjobs, hempty, hcount⟩ := hrun.of_outermost hagenda rfl
  rw [← hfinish] at hrun hempty hcount
  rw [hstep] at hrun
  refine ⟨fs, asked.finish apply, hrun, ?_, hjobs, hempty⟩
  have hanswer : (asked.finish apply).counts.getLastD 0 = (fromQueue fs).length := by
    rw [List.getLastD_eq_getLast?, hcount, Option.getD_some]
  exact congrArg (·, asked.finish apply) hanswer

/-- A job that the owner completes while it is idle starts at once, before any that waits. -/
theorem exists_run_complete (apply : α → σ → σ) (hidle : q.agenda = []) (j : Job α) :
    ∃ fs, Run apply q (.begun j :: fs) (q.complete apply .owner j) := by
  let asked : WorkQueue α σ := { q with agenda := .order (.run j.effect j.orders) :: q.agenda }
  have hask : Step apply q [] asked := .ask _ (by simp [hidle])
  have hstart : Step apply asked [.begun j] (q.start apply j) := .work (List.cons_ne_nil _ _)
  obtain ⟨fs, hrun⟩ := exists_runUntil_finish apply (q.start apply j)
  exact ⟨fs, .cons hask (.cons hstart hrun.run)⟩

/-- The jobs that are handed over to the queue start in the order in which they are handed over,
each at most once, and take effect when they start. Asked off the owner's thread, or as part of a
run that is going on, the queue runs nothing, answers zero and stays as it is. Asked by the owner
otherwise it comes to an end, with nothing left to wait, having run all that waited and all that was
handed over in the meantime, and answers how many that were. -/
theorem loses_and_reorders_nothing (apply : α → σ → σ) {world : σ} {es : List (JobEvent α)}
    {q : WorkQueue α σ} (run : Run apply (ofWorld world) es q) :
    fromQueue es ++ q.waiting = handedOver es ∧
    q.world = (started es).foldl (fun world j => apply j.effect world) world ∧
    q.runWaiting apply .other = (0, q) ∧
    (∀ rest, q.agenda = .order .runWaiting :: rest →
      (rest.any Agenda.isWaiting = true →
        q.step apply = { q with agenda := rest, counts := q.counts ++ [0] }) ∧
      (rest.any Agenda.isWaiting = false →
        (∃ fs r, RunUntil apply rest (q.step apply) fs r) ∧
        ∀ fs r, RunUntil apply rest (q.step apply) fs r →
          fromQueue fs = q.waiting ++ handedOver fs ∧ r.waiting = [] ∧
            r.counts.getLast? = some (fromQueue fs).length)) ∧
    (q.agenda = [] →
      (∀ j, ∃ fs, Run apply q (.begun j :: fs) (q.complete apply .owner j)) ∧
      ∃ fs r, RunUntil apply [] { q with agenda := [.waiting 0] } fs r ∧
        q.runWaiting apply .owner = ((fromQueue fs).length, r) ∧
        fromQueue fs = q.waiting ++ handedOver fs ∧ r.waiting = []) := by
  refine ⟨?_, run.world_eq, rfl, fun rest hagenda => ⟨?_, fun houtermost => ⟨?_, ?_⟩⟩,
    fun hidle => ⟨exists_run_complete apply hidle, exists_runUntil_runWaiting apply hidle⟩⟩
  · simpa [ofWorld] using run.fromQueue_append_waiting
  · exact step_of_nested apply hagenda
  · refine exists_runUntil apply rest _ ?_
    rw [step_of_outermost apply hagenda houtermost]
    exact List.suffix_cons _ _
  · exact fun fs r h => h.of_outermost hagenda houtermost

/-- Another thread has handed over a job that hands over a second one and asks for what is waiting
to run, and the owner is about to run what is waiting. -/
theorem loses_and_reorders_nothing_of_nested :
    let log (n : Nat) (done : List Nat) : List Nat := done ++ [n]
    let q : WorkQueue Nat (List Nat) :=
      ⟨[⟨1, [.enqueue 2 [], .runWaiting]⟩], [.order .runWaiting], [], []⟩
    (∃ es, Run log (ofWorld []) es q ∧ fromQueue es ++ q.waiting = handedOver es) ∧
      ∀ fs r, RunUntil log [] (q.step log) fs r →
        fromQueue fs = q.waiting ++ handedOver fs ∧ r.waiting = [] ∧
          r.counts.getLast? = some (fromQueue fs).length := by
  intro log q
  let j : Job Nat := ⟨1, [.enqueue 2 [], .runWaiting]⟩
  have henqueue : Step log (ofWorld []) [.enqueued j] ((ofWorld []).enqueue j) := .enqueue j
  have hask : Step log ((ofWorld []).enqueue j) [] q :=
    .ask .runWaiting (by simp [ofWorld, enqueue])
  have hrun : Run log (ofWorld []) _ q := .cons henqueue (.cons hask (.refl q))
  have hall := loses_and_reorders_nothing log hrun
  exact ⟨⟨_, hrun, hall.1⟩, ((hall.2.2.2.1 [] rfl).2 rfl).2⟩

/-- The run inside of the run answers zero, and the outer one counts both jobs. -/
example : ((ofWorld [] : WorkQueue Nat (List Nat)).enqueue
      ⟨1, [.enqueue 2 [], .runWaiting]⟩).runWaiting (fun n done => done ++ [n]) .owner =
    (2, ⟨[], [], [0, 2], [1, 2]⟩) := by
  cbv

end WorkQueue
end MessageCard
