import Mathlib.Data.List.Basic
import MessageCard.Bitmap.Loader

/-!
# The store and the budget of a loader

A loader is asked for bitmaps one call after the other, and its source answers each time as it
likes. Each load does one of four things: it finds the bitmap in the store, it gives up because the
budget is spent, it stores what it has fetched, or it charges a failure. Everything else follows
from these four by induction over the calls. A batch is no exception: none of its loads ever waits,
so its turns load one URL after the other for as long as they last.
-/
namespace MessageCard

variable {β τ : Type}

/-! ## Sources -/

namespace ImageSourceOf

/-- A source that comes to an answer every time. -/
def Answers (source : ImageSourceOf β τ) : Prop :=
  ∀ url s, ∃ answer, (source.fetch url s).1 = some answer

/-- A source that keeps a list of what it was asked for and what it answered. -/
def logged (source : ImageSourceOf β τ) :
    ImageSourceOf β (τ × List (String × Option (Except ImageError β))) where
  fetch url s :=
    let (answer, t) := source.fetch url s.1
    (answer, t, s.2 ++ [(url, answer)])

variable {source : ImageSourceOf β τ}

theorem Answers.logged (h : source.Answers) : source.logged.Answers := fun url s => h url s.1

theorem log_of_fetch {url : String} {answer : Option (Except ImageError β)}
    {s t : τ × List (String × Option (Except ImageError β))}
    (h : source.logged.fetch url s = (answer, t)) : t.2 = s.2 ++ [(url, answer)] := by
  obtain ⟨hanswer, ht⟩ := Prod.mk.inj h
  rw [← ht, ← hanswer]

end ImageSourceOf

variable [ImageCodec β]

/-- Whether an answer brings no bitmap. -/
def isFailedAnswer (answer : Except ImageError β) : Bool :=
  match readImage answer with
  | .ok _ => false
  | .error _ => true

/-- How often a URL was fetched without bringing a bitmap. -/
def failedFetches (url : String) (log : List (String × Option (Except ImageError β))) : Nat :=
  log.countP fun fetched => fetched.1 = url && fetched.2.any isFailedAnswer

theorem failedFetches_concat (other : String) (log : List (String × Option (Except ImageError β)))
    (url : String) (answer : Except ImageError β) :
    failedFetches other (log ++ [(url, some answer)]) =
      failedFetches other log + if url = other ∧ isFailedAnswer answer = true then 1 else 0 := by
  simp [failedFetches, List.countP_cons]

namespace ImageLoader

/-- What is asked of a loader. -/
inductive LoadCall where
  | load (url : String) (key : Option String)
  /-- Bitmaps are fetched ahead of time, in the turns that there is time for. -/
  | prefetch (turns : List Turn) (urls : List String)

variable {source : ImageSourceOf β τ}

/-- The loader and the source after a call. -/
def afterCall (source : ImageSourceOf β τ) (call : LoadCall) (l : ImageLoader) (s : τ) :
    ImageLoader × τ :=
  match call with
  | .load url key => (load source url key l s).2
  | .prefetch turns urls => (prefetchWithin turns source urls l s).2

/-- The loader and the source after calls, one after the other. -/
def afterCalls (source : ImageSourceOf β τ) : List LoadCall → ImageLoader → τ → ImageLoader × τ
  | [], l, s => (l, s)
  | call :: calls, l, s =>
    let (l, s) := afterCall source call l s
    afterCalls source calls l s

/-- The URLs that cannot be loaded when they are loaded one after the other. -/
def failedLoads (source : ImageSourceOf β τ) : List String → ImageLoader → τ → List String
  | [], _, _ => []
  | url :: urls, l, s =>
    let (result, l, s) := load source url none l s
    (if isFailure result then [url] else []) ++ failedLoads source urls l s

/-! ## One load -/

/-- The four things that a load may do, with its result. -/
inductive Loads (source : ImageSourceOf β τ) (url : String) (key : Option String) :
    ImageLoader → τ → Except ImageError Bitmap → ImageLoader → τ → Prop where
  | stored {l : ImageLoader} {s : τ} {b : Bitmap} (hfound : l.stored? url key = some b) :
      Loads source url key l s (.ok b) { l with sizes := l.sizes.insert url b.size } s
  | spent {l : ImageLoader} {s : τ} (hmissing : l.stored? url key = none)
      (hspent : l.attempts.allows url = false) :
      Loads source url key l s (.error (.exhausted url)) l s
  | fetched {l : ImageLoader} {s t : τ} {answer : Except ImageError β} {b : Bitmap}
      (hmissing : l.stored? url key = none) (hallowed : l.attempts.allows url = true)
      (hfetch : source.fetch url s = (some answer, t)) (hread : readImage answer = .ok b) :
      Loads source url key l s (.ok b) (l.keep url key b) t
  | failed {l : ImageLoader} {s t : τ} {answer : Except ImageError β} {e : ImageError}
      (hmissing : l.stored? url key = none) (hallowed : l.attempts.allows url = true)
      (hfetch : source.fetch url s = (some answer, t)) (hread : readImage answer = .error e) :
      Loads source url key l s (.error e) { l with attempts := l.attempts.fail url } t

theorem exists_loads (h : source.Answers) (url : String) (key : Option String) (l : ImageLoader)
    (s : τ) : ∃ result m t, load source url key l s = (some result, m, t) ∧
      Loads source url key l s result m t := by
  cases hfound : l.stored? url key with
  | some b => exact ⟨_, _, _, by simp [load, hfound], .stored hfound⟩
  | none =>
    cases hallowed : l.attempts.allows url with
    | false => exact ⟨_, _, _, by simp [load, hfound, hallowed], .spent hfound hallowed⟩
    | true =>
      obtain ⟨answer, hanswer⟩ := h url s
      have hfetch : source.fetch url s = (some answer, (source.fetch url s).2) :=
        Prod.ext hanswer rfl
      generalize (source.fetch url s).2 = t at hfetch
      cases hread : readImage answer with
      | ok b =>
        exact ⟨_, _, _, by simp [load, ask, hfound, hallowed, hfetch, receive, hread],
          .fetched hfound hallowed hfetch hread⟩
      | error e =>
        exact ⟨_, _, _, by simp [load, ask, hfound, hallowed, hfetch, receive, hread],
          .failed hfound hallowed hfetch hread⟩

variable {url : String} {key : Option String} {l m : ImageLoader} {s t : τ}
  {result : Except ImageError Bitmap}

theorem Loads.limit_eq (h : Loads source url key l s result m t) :
    m.attempts.limit = l.attempts.limit := by
  cases h <;> rfl

/-- What is stored stays as it is. -/
theorem Loads.find?_store (h : Loads source url key l s result m t) {name : String} {b : Bitmap}
    (hfound : l.store.find? l.space name = some b) : m.store.find? m.space name = some b := by
  cases h with
  | stored | spent | failed => exact hfound
  | fetched hmissing =>
    have hne : nameOf url key ≠ name := by
      rintro rfl
      cases hmissing.symm.trans hfound
    simp [keep, hne, hfound]

/-- The size of a bitmap that is loaded is remembered, unless it is empty. -/
theorem Loads.find?_sizes (h : Loads source url key l s result m t) {b : Bitmap}
    (hresult : result = .ok b) (hsize : b.size.width ≠ 0 ∧ b.size.height ≠ 0) :
    m.sizes.find? url = some b.size := by
  have hinsert : (l.sizes.insert url b.size).find? url = some b.size := by
    simp [ImageSizes.insert, ImageSizes.find?, hsize]
  cases h with
  | stored | fetched =>
    cases hresult
    exact hinsert
  | spent | failed => cases hresult

/-- A load that fails changes the failures of its URL and nothing else. -/
theorem Loads.of_error (h : Loads source url key l s result m t) {e : ImageError}
    (hresult : result = .error e) :
    ∃ attempts, m = { l with attempts } ∧ attempts.limit = l.attempts.limit ∧
      ∀ other, other ≠ url → attempts.count other = l.attempts.count other := by
  cases h with
  | stored | fetched => cases hresult
  | spent => exact ⟨l.attempts, rfl, rfl, fun _ _ => rfl⟩
  | failed =>
    exact ⟨_, rfl, rfl, fun other hne => Attempts.count_fail_of_ne (Ne.symm hne) l.attempts⟩

theorem Loads.count_le (h : Loads source url key l s result m t) (other : String) :
    m.attempts.count other ≤ max (l.attempts.count other) l.attempts.limit := by
  cases h with
  | stored | spent | fetched => exact Nat.le_max_left _ _
  | failed _ hallowed =>
    by_cases hother : url = other
    · subst hother
      rw [Attempts.count_fail_of_allows hallowed]
      exact Nat.le_trans (Attempts.allows_iff.mp hallowed) (Nat.le_max_right _ _)
    · rw [Attempts.count_fail_of_ne hother]
      exact Nat.le_max_left _ _

/-- Each fetch without a bitmap is charged to its URL. -/
theorem Loads.failedFetches_add
    {s t : τ × List (String × Option (Except ImageError β))}
    (h : Loads source.logged url key l s result m t) (other : String) :
    failedFetches other t.2 + l.attempts.count other =
      failedFetches other s.2 + m.attempts.count other := by
  cases h with
  | stored | spent => rfl
  | fetched _ _ hfetch hread =>
    rw [ImageSourceOf.log_of_fetch hfetch, failedFetches_concat, isFailedAnswer, hread]
    simp [keep]
  | failed _ hallowed hfetch hread =>
    rw [ImageSourceOf.log_of_fetch hfetch, failedFetches_concat, isFailedAnswer, hread]
    by_cases hother : url = other
    · subst hother
      simp [Attempts.count_fail_of_allows hallowed, Nat.add_assoc, Nat.add_comm 1]
    · simp [Attempts.count_fail_of_ne hother, hother]

/-- A load that may fetch is worth what the source answers: the bitmap is stored, or an attempt is
spent. -/
theorem Loads.of_allowed (h : Loads source url key l s result m t)
    (hmissing : l.stored? url key = none) (hallowed : l.attempts.allows url = true) :
    ∃ answer, source.fetch url s = (some answer, t) ∧ result = readImage answer ∧
      (∀ b, result = .ok b → m.stored? url key = some b ∧ m.attempts = l.attempts) ∧
      ∀ e, result = .error e → m.attempts.count url = l.attempts.count url + 1 := by
  cases h with
  | stored hfound => cases hmissing.symm.trans hfound
  | spent _ hspent => cases hallowed.symm.trans hspent
  | fetched _ _ hfetch hread =>
    refine ⟨_, hfetch, hread.symm, ?_, nofun⟩
    rintro b ⟨⟩
    exact ⟨by simp [stored?, keep], rfl⟩
  | failed _ _ hfetch hread =>
    exact ⟨_, hfetch, hread.symm, nofun, fun _ _ => Attempts.count_fail_of_allows hallowed⟩

/-- A load without a bitmap and without budget does nothing. -/
theorem Loads.of_spent (h : Loads source url key l s result m t)
    (hmissing : l.stored? url key = none) (hspent : l.attempts.allows url = false) :
    result = .error (.exhausted url) ∧ m = l ∧ t = s := by
  cases h with
  | stored hfound => cases hmissing.symm.trans hfound
  | spent => exact ⟨rfl, rfl, rfl⟩
  | fetched _ hallowed | failed _ hallowed => cases hspent.symm.trans hallowed

/-! ## Batches -/

/-- The loads of several URLs, each begun when the one before has come to its end. -/
def loadAll (source : ImageSourceOf β τ) : List String → ImageLoader → τ →
    List (String × Option (Except ImageError Bitmap)) × ImageLoader × τ
  | [], l, s => ([], l, s)
  | url :: urls, l, s =>
    let (result, l, s) := load source url none l s
    let (results, l, s) := loadAll source urls l s
    ((url, result) :: results, l, s)

/-- Each load comes to an end, and those that fail are told from those that do not. -/
theorem loadAll_results (hanswers : source.Answers) (urls : List String) (l : ImageLoader) (s : τ) :
    (loadAll source urls l s).1.all (·.2.isSome) = true ∧
      ((loadAll source urls l s).1.filter (isFailure ·.2)).map (·.1) =
        failedLoads source urls l s ∧
      (loadAll source urls l s).1.countP (!isFailure ·.2) + (failedLoads source urls l s).length =
        urls.length := by
  induction urls generalizing l s with
  | nil => simp [loadAll, failedLoads]
  | cons url urls ih =>
    obtain ⟨result, m, t, hload, -⟩ := exists_loads hanswers url none l s
    obtain ⟨hends, hfailed, hcount⟩ := ih m t
    simp only [loadAll, failedLoads, hload, List.all_cons, hends, List.filter_cons,
      List.countP_cons, List.length_append, List.length_cons, ← hcount]
    cases isFailure (some result) <;> simp [hfailed] <;> omega

/-- A load that has come to its end is not woken. -/
theorem Batch.turn_wake {b : Batch} (hdone : b.begun.all (·.2.isSome) = true) (place : Nat)
    (l : ImageLoader) (s : τ) : b.turn source (.wake place) l s = (b, l, s) := by
  cases hload : b.begun[place]? with
  | none => simp [turn, hload]
  | some load =>
    have hsome := List.all_eq_true.mp hdone load (List.mem_of_getElem? hload)
    obtain ⟨result, hresult⟩ := Option.isSome_iff_exists.mp hsome
    obtain ⟨url, _⟩ := load
    subst hresult
    simp [turn, hload]

/-- No load of a batch waits for its source. In any turns, as many loads begin as can, and each ends
at once. -/
theorem Batch.run_eq (hanswers : source.Answers) (turns : List Turn) {b : Batch}
    (hdone : b.begun.all (·.2.isSome) = true) (l : ImageLoader) (s : τ) :
    b.run source turns l s =
      (⟨b.begun ++ (loadAll source (b.left.take (turns.count .next)) l s).1,
        b.left.drop (turns.count .next)⟩,
        (loadAll source (b.left.take (turns.count .next)) l s).2) := by
  induction turns generalizing b l s with
  | nil => simp [run, loadAll]
  | cons turn turns ih =>
    cases turn with
    | wake place =>
      have hne : Turn.wake place ≠ .next := nofun
      rw [run, turn_wake hdone, List.count_cons_of_ne hne]
      exact ih hdone l s
    | next =>
      obtain ⟨begun, left⟩ := b
      rw [run, List.count_cons_self]
      cases left with
      | nil => simpa [turn, loadAll] using ih hdone l s
      | cons url left =>
        obtain ⟨result, m, t, hload, -⟩ := exists_loads hanswers url none l s
        have hends : (begun ++ [(url, some result)]).all (·.2.isSome) = true := by
          simpa using hdone
        have hrun := ih (b := ⟨begun ++ [(url, some result)], left⟩) hends m t
        simp only [Batch.turn, hload, hrun]
        simp [loadAll, hload]

/-! ## Any number of calls -/

theorem loadAll_eq (source : ImageSourceOf β τ) (urls : List String) (l : ImageLoader) (s : τ) :
    (loadAll source urls l s).2 = afterCalls source (urls.map (.load · none)) l s := by
  induction urls generalizing l s with
  | nil => rfl
  | cons url urls ih => exact ih _ _

/-- As many URLs are loaded ahead of time as loads begin, one after the other. -/
theorem prefetchWithin_eq (hanswers : source.Answers) (turns : List Turn) (urls : List String)
    (l : ImageLoader) (s : τ) :
    (prefetchWithin turns source urls l s).2 =
      afterCalls source ((urls.take (turns.count .next)).map (.load · none)) l s := by
  rw [← loadAll_eq, prefetchWithin, Batch.run_eq hanswers turns (by rfl)]

/-- What every load keeps is kept by all calls. -/
theorem afterCalls_induction (hanswers : source.Answers) {P : ImageLoader → τ → Prop}
    (hstep : ∀ {url key l s result m t}, Loads source url key l s result m t → P l s → P m t)
    (calls : List LoadCall) (h : P l s) :
    P (afterCalls source calls l s).1 (afterCalls source calls l s).2 := by
  have hload : ∀ (url : String) (key : Option String) {l : ImageLoader} {s : τ}, P l s →
      P (load source url key l s).2.1 (load source url key l s).2.2 := by
    intro url key l s h
    obtain ⟨result, m, t, heq, hloads⟩ := exists_loads hanswers url key l s
    rw [heq]
    exact hstep hloads h
  have hloads : ∀ (urls : List String) {l : ImageLoader} {s : τ}, P l s →
      P (afterCalls source (urls.map (.load · none)) l s).1
        (afterCalls source (urls.map (.load · none)) l s).2 := by
    intro urls
    induction urls with
    | nil => exact fun h => h
    | cons url urls ih => exact fun h => ih (hload url none h)
  induction calls generalizing l s with
  | nil => exact h
  | cons call calls ih =>
    cases call with
    | load url key => exact ih (hload url key h)
    | prefetch turns urls =>
      rw [afterCalls, afterCall, prefetchWithin_eq hanswers]
      exact ih (hloads (urls.take (turns.count .next)) h)

theorem afterCalls_append (source : ImageSourceOf β τ) (calls later : List LoadCall)
    (l : ImageLoader) (s : τ) : afterCalls source (calls ++ later) l s =
      afterCalls source later (afterCalls source calls l s).1 (afterCalls source calls l s).2 := by
  induction calls generalizing l s with
  | nil => rfl
  | cons call calls ih => exact ih _ _

/-- What is stored under a name is found there after any calls. -/
theorem find?_store_afterCalls (hanswers : source.Answers) (calls : List LoadCall) {name : String}
    {b : Bitmap} (hfound : l.store.find? l.space name = some b) (s : τ) :
    (afterCalls source calls l s).1.store.find? (afterCalls source calls l s).1.space name =
      some b :=
  afterCalls_induction hanswers (P := fun m _ => m.store.find? m.space name = some b)
    (fun hloads hfound => hloads.find?_store hfound) calls hfound

/-- The budget of a URL bounds how often it is fetched in vain. -/
theorem failedFetches_le (hanswers : source.Answers) (calls : List LoadCall) (l : ImageLoader)
    (s : τ) (url : String) :
    failedFetches url (afterCalls source.logged calls l (s, [])).2.2 ≤ l.attempts.limit := by
  -- Every failure so far is in the count of the URL, which the budget stops.
  have hcharged := afterCalls_induction hanswers.logged (P := fun m t =>
      failedFetches url t.2 + l.attempts.count url = m.attempts.count url ∧
        m.attempts.limit = l.attempts.limit ∧
        m.attempts.count url ≤ max (l.attempts.count url) l.attempts.limit)
    (fun {_ _ n u _ m t} hloads ⟨hsum, hlimit, hle⟩ => by
      have hadd := hloads.failedFetches_add url
      have hcount := hloads.count_le url
      have hsame := hloads.limit_eq
      omega)
    calls (l := l) (s := (s, [])) ⟨Nat.zero_add _, rfl, Nat.le_max_left _ _⟩
  omega

/-- URLs that are fetched ahead of time are loaded one after the other, each as often as it is
given. Time runs out exactly if it does so before the last load begins. -/
theorem prefetchWithin_spec (hanswers : source.Answers) (turns : List Turn) (urls : List String)
    (l : ImageLoader) (s : τ) :
    let fetched := prefetchWithin turns source urls l s
    fetched.2 = afterCalls source ((urls.take (turns.count .next)).map (.load · none)) l s ∧
      (fetched.1.timedOut = true ↔ turns.count .next < urls.length) ∧
      (fetched.1.timedOut = true → fetched.1.loaded = 0 ∧ fetched.1.failed = urls) ∧
      (fetched.1.timedOut = false →
        fetched.2 = afterCalls source (urls.map (.load · none)) l s ∧
        fetched.1.failed = failedLoads source urls l s ∧
        fetched.1.loaded + fetched.1.failed.length = urls.length) := by
  intro fetched
  have hafter : fetched.2 = _ := prefetchWithin_eq hanswers turns urls l s
  have houtcome : fetched.1 =
      .ofBatch urls ⟨(loadAll source (urls.take (turns.count .next)) l s).1,
        urls.drop (turns.count .next)⟩ := by
    simp [fetched, prefetchWithin, Batch.run_eq hanswers turns (b := ⟨[], urls⟩) (by rfl)]
  by_cases hall : urls.length ≤ turns.count .next
  · obtain ⟨hends, hfailed, hcount⟩ := loadAll_results hanswers urls l s
    rw [List.take_of_length_le hall] at hafter houtcome ⊢
    rw [List.drop_eq_nil_of_le hall, Prefetch.ofBatch, Batch.isDone, hends, hfailed] at houtcome
    rw [houtcome]
    exact ⟨hafter, by simp [hall], nofun, fun _ => ⟨hafter, rfl, hcount⟩⟩
  · have hleft : (urls.drop (turns.count .next)).isEmpty = false := by simpa using hall
    rw [Prefetch.ofBatch, Batch.isDone, hleft] at houtcome
    rw [houtcome]
    exact ⟨hafter, by simpa using hall, fun _ => ⟨rfl, rfl⟩, nofun⟩

/-- Over any calls, one after the other, against a source that answers each time as it likes, each
URL is fetched in vain at most as often as the limit allows. Whatever was stored at any moment is
found later under its name, with the source left alone even when the budget is spent. Each load
comes to an end, with a bitmap, whose size is then remembered unless it is empty, or in vain, which
changes the failures of its URL and nothing else. Without a stored bitmap the result is what the
source answers: a bitmap is stored, a failure costs an attempt, and without an attempt left the
source is not asked. URLs that are fetched ahead of time are loaded one after the other; unless time
runs out before the last of them is begun, those that fail are named in their order, each as often
as it fails. -/
theorem keeps_to_store_and_budget {source : ImageSourceOf β τ} (hanswers : source.Answers)
    (calls : List LoadCall) (l : ImageLoader) (s : τ) :
    let moment (calls : List LoadCall) := afterCalls source.logged calls l (s, [])
    let m := (moment calls).1
    let t := (moment calls).2
    (∀ url, failedFetches url t.2 ≤ l.attempts.limit) ∧
    (∀ earlier later, calls = earlier ++ later → ∀ url key other wanted b,
      (moment earlier).1.stored? url key = some b → nameOf other wanted = nameOf url key →
      load source.logged other wanted m t =
        (some (.ok b), { m with sizes := m.sizes.insert other b.size }, t)) ∧
    (∀ url key, ∃ result n u, load source.logged url key m t = (some result, n, u) ∧
      (∀ b, result = .ok b → b.size.width ≠ 0 ∧ b.size.height ≠ 0 →
        n.sizes.find? url = some b.size) ∧
      (∀ e, result = .error e → ∃ attempts, n = { m with attempts } ∧
        attempts.limit = m.attempts.limit ∧
        ∀ other, other ≠ url → attempts.count other = m.attempts.count other) ∧
      (m.stored? url key = none → m.attempts.allows url = true → ∃ answer,
        source.logged.fetch url t = (some answer, u) ∧ result = readImage answer ∧
          (∀ b, result = .ok b → n.stored? url key = some b ∧ n.attempts = m.attempts) ∧
          ∀ e, result = .error e → n.attempts.count url = m.attempts.count url + 1) ∧
      (m.stored? url key = none → m.attempts.allows url = false →
        result = .error (.exhausted url) ∧ n = m ∧ u = t)) ∧
    ∀ turns urls,
      let fetched := prefetchWithin turns source.logged urls m t
      fetched.2 =
        afterCalls source.logged ((urls.take (turns.count .next)).map (.load · none)) m t ∧
      (fetched.1.timedOut = true ↔ turns.count .next < urls.length) ∧
      (fetched.1.timedOut = true → fetched.1.loaded = 0 ∧ fetched.1.failed = urls) ∧
      (fetched.1.timedOut = false →
        fetched.2 = afterCalls source.logged (urls.map (.load · none)) m t ∧
        fetched.1.failed = failedLoads source.logged urls m t ∧
        fetched.1.loaded + fetched.1.failed.length = urls.length) := by
  intro moment m t
  have hlogged := hanswers.logged
  refine ⟨failedFetches_le hanswers calls l s, ?_, ?_, fun turns urls =>
    prefetchWithin_spec hlogged turns urls m t⟩
  · intro earlier later hcalls url key other wanted b hstored hname
    have hfound : m.stored? other wanted = some b := by
      have hlater := find?_store_afterCalls hlogged later hstored (moment earlier).2
      rw [← afterCalls_append, ← hcalls, ← hname] at hlater
      exact hlater
    simp [load, hfound]
  · intro url key
    obtain ⟨result, n, u, hload, hloads⟩ := exists_loads hlogged url key m t
    exact ⟨result, n, u, hload, fun b => hloads.find?_sizes, fun e => hloads.of_error,
      hloads.of_allowed, hloads.of_spent⟩

/-- A source that has nothing at first. Later it has one image, and bytes of no format under every
other URL. -/
def lateSource : ImageSource Nat where
  fetch url n :=
    (some (if n = 0 then .error (.notFound url)
      else .ok (if url = "a.png" then .png ⟨2, 1⟩ else .bytes [])), n + 1)

/-- A bitmap comes with the second load, and is then found in the store with its size remembered.
Another URL has no bitmap: it spends its budget in a prefetch that names the URLs several times and
wakes a load for nothing. -/
theorem keeps_to_store_and_budget_of_late_answer :
    let fetches : List LoadCall := [.load "a.png" none, .load "a.png" none]
    let turns : List Turn := [.next, .next, .wake 0, .next, .next, .next]
    let urls := ["b.png", "a.png", "b.png", "a.png", "b.png"]
    let moment := afterCalls lateSource.logged fetches (.ofLimit 2 none) (0, [])
    let again := load lateSource.logged "a.png" none moment.1 moment.2
    let fetched := prefetchWithin turns lateSource.logged urls moment.1 moment.2
    lateSource.Answers ∧ failedFetches "a.png" moment.2.2 = 1 ∧
      again.1 = some (.ok (.still ⟨2, 1⟩)) ∧ again.2.2 = moment.2 ∧
      again.2.1.sizes.find? "a.png" = some ⟨2, 1⟩ ∧
      (load lateSource.logged "b.png" none moment.1 moment.2).1 = some (.error .decode) ∧
      fetched.1 = ⟨2, ["b.png", "b.png", "b.png"], false⟩ ∧
      failedFetches "b.png" fetched.2.2.2 ≤ 2 ∧ fetched.2.1.attempts.count "b.png" = 2 := by
  intro fetches turns urls moment again fetched
  have hanswers : lateSource.Answers := fun url n => ⟨_, rfl⟩
  obtain ⟨-, hstored, hload, hprefetch⟩ :=
    keeps_to_store_and_budget hanswers fetches (.ofLimit 2 none) 0
  have hagain : again = _ :=
    hstored fetches [] rfl "a.png" none "a.png" none (.still ⟨2, 1⟩) (by decide +kernel) rfl
  refine ⟨hanswers, by decide +kernel, by rw [hagain], by rw [hagain], ?_, ?_, ?_, ?_,
    by decide +kernel⟩
  · obtain ⟨result, n, u, heq, hsize, -⟩ := hload "a.png" none
    have hn : again = (some result, n, u) := heq
    obtain ⟨hresult, -⟩ := Prod.mk.inj (hn.symm.trans hagain)
    rw [hn]
    exact hsize _ (Option.some.inj hresult) (by decide)
  · obtain ⟨result, n, u, heq, -, -, hasked, -⟩ := hload "b.png" none
    obtain ⟨answer, hfetch, hresult, -⟩ := hasked (by decide +kernel) (by decide +kernel)
    have hanswer : some answer = some (.ok (.bytes [])) :=
      (congrArg Prod.fst hfetch).symm.trans (by decide +kernel)
    rw [heq, hresult, Option.some.inj hanswer]
    rfl
  · obtain ⟨-, htime, -, hintime⟩ := hprefetch turns urls
    have hended : fetched.1.timedOut = false :=
      Bool.eq_false_iff.mpr fun hout => absurd (htime.mp hout) (by decide)
    obtain ⟨-, hfailed, hcount⟩ := hintime hended
    have hnamed : fetched.1.failed = ["b.png", "b.png", "b.png"] :=
      hfailed.trans (by decide +kernel)
    have hloaded : fetched.1.loaded + ["b.png", "b.png", "b.png"].length = 5 := by
      rw [← hnamed]
      exact hcount
    have htwo : fetched.1.loaded = 2 := Nat.add_right_cancel hloaded
    calc fetched.1 = ⟨fetched.1.loaded, fetched.1.failed, fetched.1.timedOut⟩ := rfl
      _ = ⟨2, ["b.png", "b.png", "b.png"], false⟩ := by rw [htwo, hnamed, hended]
  · have hbudget : failedFetches "b.png" (afterCalls lateSource.logged
        (fetches ++ [.prefetch turns urls]) (.ofLimit 2 none) (0, [])).2.2 ≤ 2 :=
      (keeps_to_store_and_budget hanswers _ _ _).1 "b.png"
    rw [afterCalls_append] at hbudget
    exact hbudget

end ImageLoader
end MessageCard
