/-!
# A queue of work for one thread

State that belongs to one thread is only changed there. A job that comes from this thread, the
owner, may run at once; a job from any other thread waits in a queue until the owner runs what is
waiting, first in, first out. A job may itself hand over jobs or ask to run what is waiting, which
does nothing while that is already going on.

The owner keeps an agenda of what it has yet to do. One step takes the first point off it, and each
step leaves less work, so the agenda comes to its end.
-/
namespace MessageCard

/-- Where a call comes from. -/
inductive Caller where
  /-- The thread that the queue belongs to. -/
  | owner
  | other
  deriving DecidableEq

/-- What a job asks for. -/
inductive Order (α : Type) where
  /-- A job is to wait in the queue; it is given by its effect and the orders that it makes. -/
  | enqueue (effect : α) (orders : List (Order α))
  /-- A job is to run at once. -/
  | run (effect : α) (orders : List (Order α))
  /-- What is waiting is to run. -/
  | runWaiting

/-- A piece of work: what it does, and the orders that it makes in doing so. -/
structure Job (α : Type) where
  effect : α
  orders : List (Order α)

/-- A job that makes no orders. -/
def Job.plain {α : Type} (effect : α) : Job α := ⟨effect, []⟩

/-- A point of the owner's agenda. -/
inductive Agenda (α : Type) where
  | order (o : Order α)
  /-- The rest of running what is waiting, of which some jobs have run. -/
  | waiting (ran : Nat)

/-- The jobs that wait, what the owner has yet to do, the numbers of jobs that finished runs came
to, and what the jobs have changed so far. -/
structure WorkQueue (α σ : Type) where
  waiting : List (Job α)
  agenda : List (Agenda α)
  counts : List Nat
  world : σ

mutual

/-- A bound on the steps that an order takes. -/
def Order.weight {α : Type} : Order α → Nat
  | .enqueue _ orders => Order.weights orders + 2
  | .run _ orders => Order.weights orders + 1
  | .runWaiting => 2

def Order.weights {α : Type} : List (Order α) → Nat
  | [] => 0
  | o :: rest => o.weight + Order.weights rest

end

def Job.weight {α : Type} (j : Job α) : Nat := Order.weights j.orders + 1

def Agenda.weight {α : Type} : Agenda α → Nat
  | .order o => o.weight
  | .waiting _ => 1

def Job.weights {α : Type} : List (Job α) → Nat
  | [] => 0
  | j :: rest => j.weight + Job.weights rest

def Agenda.weights {α : Type} : List (Agenda α) → Nat
  | [] => 0
  | point :: rest => point.weight + Agenda.weights rest

/-- Whether a point of the agenda runs what is waiting. -/
def Agenda.isWaiting {α : Type} : Agenda α → Bool
  | .order _ => false
  | .waiting _ => true

theorem Job.weights_append {α : Type} (js ks : List (Job α)) :
    Job.weights (js ++ ks) = Job.weights js + Job.weights ks := by
  induction js with
  | nil => simp only [List.nil_append, Job.weights, Nat.zero_add]
  | cons j rest ih => simp only [List.cons_append, Job.weights, ih, Nat.add_assoc]

theorem Agenda.weights_orders_append {α : Type} (orders : List (Order α))
    (rest : List (Agenda α)) :
    Agenda.weights (orders.map .order ++ rest) = Order.weights orders + Agenda.weights rest := by
  induction orders with
  | nil => simp only [List.map_nil, List.nil_append, Order.weights, Nat.zero_add]
  | cons o tail ih =>
    simp only [List.map_cons, List.cons_append, Agenda.weights, Agenda.weight, Order.weights, ih,
      Nat.add_assoc]

namespace WorkQueue

variable {α σ : Type}

def ofWorld (world : σ) : WorkQueue α σ := ⟨[], [], [], world⟩

/-- A bound on the steps that are left. -/
def weight (q : WorkQueue α σ) : Nat :=
  Job.weights q.waiting + Agenda.weights q.agenda

/-- A job runs: its effect takes place, and its orders come first on the agenda. -/
def start (apply : α → σ → σ) (q : WorkQueue α σ) (j : Job α) : WorkQueue α σ :=
  { q with agenda := j.orders.map .order ++ q.agenda, world := apply j.effect q.world }

/-- A job waits. -/
def enqueue (q : WorkQueue α σ) (j : Job α) : WorkQueue α σ :=
  { q with waiting := q.waiting ++ [j] }

/-- The first point of the agenda. -/
def step (apply : α → σ → σ) (q : WorkQueue α σ) : WorkQueue α σ :=
  match q.agenda with
  | [] => q
  | .order (.enqueue effect orders) :: rest =>
    { q with agenda := rest }.enqueue ⟨effect, orders⟩
  | .order (.run effect orders) :: rest =>
    { q with agenda := rest }.start apply ⟨effect, orders⟩
  | .order .runWaiting :: rest =>
    if rest.any Agenda.isWaiting then { q with agenda := rest, counts := q.counts ++ [0] }
    else { q with agenda := .waiting 0 :: rest }
  | .waiting ran :: rest =>
    match q.waiting with
    | [] => { q with agenda := rest, counts := q.counts ++ [ran] }
    | j :: waiting => { q with waiting, agenda := .waiting (ran + 1) :: rest }.start apply j

theorem weight_step_lt (apply : α → σ → σ) (q : WorkQueue α σ) (h : q.agenda ≠ []) :
    (q.step apply).weight < q.weight := by
  obtain ⟨waiting, agenda, counts, world⟩ := q
  cases agenda with
  | nil => exact absurd rfl h
  | cons point rest =>
    cases point with
    | order o =>
      cases o with
      | enqueue effect orders =>
        simp only [step, enqueue, weight, Job.weights_append, Job.weights, Job.weight,
          Agenda.weights, Agenda.weight, Order.weight]
        omega
      | run effect orders =>
        simp only [step, start, weight, Agenda.weights_orders_append, Agenda.weights,
          Agenda.weight, Order.weight]
        omega
      | runWaiting =>
        simp only [step]
        split <;>
          simp only [weight, Agenda.weights, Agenda.weight, Order.weight] <;> omega
    | waiting ran =>
      cases waiting with
      | nil =>
        simp only [step, weight, Agenda.weights, Agenda.weight]
        omega
      | cons j waiting =>
        simp only [step, start, weight, Agenda.weights_orders_append, Agenda.weights,
          Agenda.weight, Job.weights, Job.weight]
        omega

/-- The whole agenda. -/
def finish (apply : α → σ → σ) (q : WorkQueue α σ) : WorkQueue α σ :=
  if _ : q.agenda = [] then q else finish apply (q.step apply)
termination_by q.weight
decreasing_by exact weight_step_lt apply q ‹_›

/-- A job runs at once, with all that it asks for. -/
def perform (apply : α → σ → σ) (q : WorkQueue α σ) (j : Job α) : WorkQueue α σ :=
  (q.start apply j).finish apply

/-- A job runs at once for the owner, and waits for anyone else. -/
def complete (apply : α → σ → σ) (q : WorkQueue α σ) (caller : Caller) (j : Job α) :
    WorkQueue α σ :=
  match caller with
  | .owner => q.perform apply j
  | .other => q.enqueue j

/-- All that is waiting runs, and is counted, if the owner asks. -/
def runWaiting (apply : α → σ → σ) (q : WorkQueue α σ) (caller : Caller) :
    Nat × WorkQueue α σ :=
  match caller with
  | .owner =>
    let done := { q with agenda := .order .runWaiting :: q.agenda }.finish apply
    (done.counts.getLastD 0, done)
  | .other => (0, q)

/-- The first job that is waiting runs. -/
def runNext? (apply : α → σ → σ) (q : WorkQueue α σ) : Option (WorkQueue α σ) :=
  match q.waiting with
  | [] => none
  | j :: waiting => some ({ q with waiting }.perform apply j)

/-! ## Everything that may happen -/

end WorkQueue

/-- What happens to a job. -/
inductive JobEvent (α : Type) where
  /-- It is handed over and waits. -/
  | enqueued (j : Job α)
  /-- It has waited and starts. -/
  | taken (j : Job α)
  /-- It starts without having waited. -/
  | begun (j : Job α)

namespace WorkQueue

variable {α σ : Type}

/-- What the first point of the agenda does to a job. -/
def event? (q : WorkQueue α σ) : Option (JobEvent α) :=
  match q.agenda with
  | .order (.enqueue effect orders) :: _ => some (.enqueued ⟨effect, orders⟩)
  | .order (.run effect orders) :: _ => some (.begun ⟨effect, orders⟩)
  | .waiting _ :: _ => q.waiting.head?.map .taken
  | _ => none

/-- What may happen next, with the events: the owner goes on with its agenda; anyone hands over a
job that waits; or the owner asks for something that was not on the agenda, be it idle or at work on
a job. It is not at work on a job when it is about to run the first of those that wait. -/
inductive Step (apply : α → σ → σ) :
    WorkQueue α σ → List (JobEvent α) → WorkQueue α σ → Prop where
  | work {q : WorkQueue α σ} (busy : q.agenda ≠ []) :
      Step apply q q.event?.toList (q.step apply)
  | enqueue {q : WorkQueue α σ} (j : Job α) : Step apply q [.enqueued j] (q.enqueue j)
  | ask {q : WorkQueue α σ} (o : Order α) (free : q.agenda.head? ≠ some (.waiting 0)) :
      Step apply q [] { q with agenda := .order o :: q.agenda }

/-- One step after the other. -/
inductive Run (apply : α → σ → σ) :
    WorkQueue α σ → List (JobEvent α) → WorkQueue α σ → Prop where
  | refl (q : WorkQueue α σ) : Run apply q [] q
  | cons {q r s : WorkQueue α σ} {es fs : List (JobEvent α)} :
      Step apply q es r → Run apply r fs s → Run apply q (es ++ fs) s

/-- The steps until the agenda has come down to what it was when something was asked for. -/
inductive RunUntil (apply : α → σ → σ) (rest : List (Agenda α)) :
    WorkQueue α σ → List (JobEvent α) → WorkQueue α σ → Prop where
  | reached {q : WorkQueue α σ} : q.agenda = rest → RunUntil apply rest q [] q
  | cons {q r s : WorkQueue α σ} {es fs : List (JobEvent α)} : q.agenda ≠ rest →
      Step apply q es r → RunUntil apply rest r fs s → RunUntil apply rest q (es ++ fs) s

end WorkQueue
end MessageCard
