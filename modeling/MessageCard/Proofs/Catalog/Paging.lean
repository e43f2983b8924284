import Mathlib.Data.List.Forall2
import MessageCard.Catalog.Session

/-!
# Lists, page by page

What a service is asked for while a list is fetched is seen by the service alone. A service that
answers as another one does and writes down what it was asked shows it: every list, of whatever
service, is a row of requests, each with the token of the page before it. All pages but the last one
say that there are more and bring a new token, and the last request decides about the outcome.
-/
namespace MessageCard

/-- A page that was asked for since a token, and what was answered. -/
structure PageRequest where
  kind : TemplateKind
  token : Option String
  answer : CatalogAnswer

namespace CatalogService

variable {σ : Type}

/-- The service, with a record of the pages that it was asked for, the first one first. -/
def recorded (service : CatalogService σ) : CatalogService (σ × List PageRequest) where
  entry kind key s :=
    let (answer, state) := service.entry kind key s.1
    (answer, state, s.2)
  page kind token s :=
    let (answer, state) := service.page kind token s.1
    (answer, state, s.2 ++ [⟨kind, token, answer⟩])

end CatalogService

/-- Whether a page leads on from the token that it was asked for with. -/
structure CatalogPage.LeadsOn (p : CatalogPage) (token : Option String) : Prop where
  hasMore : p.hasMore = true
  ne_none : p.token ≠ none
  ne_token : p.token ≠ token

theorem CatalogPage.LeadsOn.of_not {p : CatalogPage} {token : Option String}
    (hmore : ¬ p.hasMore = false) (htoken : ¬ (p.token = none ∨ p.token = token)) :
    p.LeadsOn token where
  hasMore := by simpa using hmore
  ne_none := (not_or.mp htoken).1
  ne_token := (not_or.mp htoken).2

/-- A list in at most `limit` pages, from a token on and after some entries. The `earlier` requests
brought `pages`, and the `last` one decided about the result. -/
structure IsPaging (kind : TemplateKind) (limit : Nat) (entries : List TemplateEntry)
    (since : Option String) (earlier : List PageRequest) (pages : List CatalogPage)
    (last : PageRequest) (result : Except FetchError CatalogPage) : Prop where
  bounded : (earlier ++ [last]).length ≤ limit
  kinds : ∀ r ∈ earlier ++ [last], r.kind = kind
  /-- The first page is asked for with the token to start from, each further one with the token of
  the page before it. -/
  tokens : (earlier ++ [last]).map (·.token) = since :: pages.map (·.token)
  received : List.Forall₂ (fun r p => readPage r.answer = .ok p ∧ p.LeadsOn r.token) earlier pages
  /-- The list has come if the last page says that there are no more. It has all entries in order
  and the last page's token, or the token that this page was asked for with. -/
  complete : ∀ list, result = .ok list ↔ ∃ p, readPage last.answer = .ok p ∧ p.hasMore = false ∧
    list = ⟨entries ++ (pages ++ [p]).flatMap (·.entries), p.token.or last.token, false⟩
  failed : ∀ e, result = .error e ↔ readPage last.answer = .error e ∨
    ∃ p, readPage last.answer = .ok p ∧ p.hasMore = true ∧
      (¬ p.LeadsOn last.token ∧ e = .malformed .noNewToken ∨
        p.LeadsOn last.token ∧ (earlier ++ [last]).length = limit ∧
          e = .malformed (.tooManyPages CatalogService.pageLimit))

namespace IsPaging

variable {kind : TemplateKind} {limit : Nat} {entries : List TemplateEntry} {r : PageRequest}
  {result : Except FetchError CatalogPage}

/-- A single request that is not answered with a page. -/
theorem of_error {e : FetchError} (hread : readPage r.answer = .error e) :
    IsPaging r.kind (limit + 1) entries r.token [] [] r (.error e) where
  bounded := Nat.succ_le_succ (Nat.zero_le _)
  kinds := by simp
  tokens := rfl
  received := .nil
  complete list := by simp [hread]
  failed f := by simp [hread]

/-- A single request for the only page. -/
theorem of_last {p : CatalogPage} (hread : readPage r.answer = .ok p) (hmore : p.hasMore = false) :
    IsPaging r.kind (limit + 1) entries r.token [] [] r
      (.ok ⟨entries ++ p.entries, p.token.or r.token, false⟩) where
  bounded := Nat.succ_le_succ (Nat.zero_le _)
  kinds := by simp
  tokens := rfl
  received := .nil
  complete list := by
    constructor
    · rintro ⟨⟩
      exact ⟨p, hread, hmore, by simp⟩
    · rintro ⟨q, hq, -, rfl⟩
      cases hread.symm.trans hq
      simp
  failed f := by simp [hread, hmore]

/-- A single request for a page that promises more and does not say where. -/
theorem of_stuck {p : CatalogPage} (hread : readPage r.answer = .ok p) (hmore : p.hasMore = true)
    (hstuck : ¬ p.LeadsOn r.token) :
    IsPaging r.kind (limit + 1) entries r.token [] [] r (.error (.malformed .noNewToken)) where
  bounded := Nat.succ_le_succ (Nat.zero_le _)
  kinds := by simp
  tokens := rfl
  received := .nil
  complete list := by simp [hread, hmore]
  failed f := by
    constructor
    · rintro ⟨⟩
      exact .inr ⟨p, hread, hmore, .inl ⟨hstuck, rfl⟩⟩
    · rintro (hf | ⟨q, hq, -, ⟨-, rfl⟩ | ⟨hon, -, -⟩⟩)
      · cases hread.symm.trans hf
      · rfl
      · cases hread.symm.trans hq
        exact absurd hon hstuck

/-- A single request that leads on, where no further one is allowed. -/
theorem of_full {p : CatalogPage} (hread : readPage r.answer = .ok p) (hon : p.LeadsOn r.token) :
    IsPaging r.kind 1 entries r.token [] [] r
      (.error (.malformed (.tooManyPages CatalogService.pageLimit))) where
  bounded := Nat.le_refl _
  kinds := by simp
  tokens := rfl
  received := .nil
  complete list := by simp [hread, hon.hasMore]
  failed f := by
    constructor
    · rintro ⟨⟩
      exact .inr ⟨p, hread, hon.hasMore, .inr ⟨hon, rfl, rfl⟩⟩
    · rintro (hf | ⟨q, hq, -, ⟨hstuck, -⟩ | ⟨-, -, rfl⟩⟩)
      · cases hread.symm.trans hf
      · cases hread.symm.trans hq
        exact absurd hon hstuck
      · rfl

/-- One more request before all others, for a page that leads on to them. -/
theorem cons {p : CatalogPage} {last : PageRequest} {earlier : List PageRequest}
    {pages : List CatalogPage} (hread : readPage r.answer = .ok p) (hon : p.LeadsOn r.token)
    (h : IsPaging r.kind limit (entries ++ p.entries) p.token earlier pages last result) :
    IsPaging r.kind (limit + 1) entries r.token (r :: earlier) (p :: pages) last result where
  bounded := Nat.succ_le_succ h.bounded
  kinds := List.forall_mem_cons.mpr ⟨rfl, h.kinds⟩
  tokens := congrArg (r.token :: ·) h.tokens
  received := .cons ⟨hread, hon⟩ h.received
  complete list := by
    rw [h.complete]
    simp only [List.cons_append, List.flatMap_cons, List.append_assoc]
  failed e := by
    rw [h.failed]
    simp only [List.cons_append, List.length_cons, Nat.add_right_cancel_iff]

end IsPaging

namespace CatalogService

variable {σ : Type} (service : CatalogService σ)

/-- A list is fetched by requests that lead on, and the same ones if the service keeps a record. -/
theorem exists_isPaging_follow (kind : TemplateKind) (more : Nat) (entries : List TemplateEntry)
    (token : Option String) (s : σ) (record : List PageRequest) :
    ∃ earlier pages last,
      service.recorded.follow kind more entries token (s, record) =
        ((service.follow kind more entries token s).1,
          (service.follow kind more entries token s).2, record ++ (earlier ++ [last])) ∧
      IsPaging kind (more + 1) entries token earlier pages last
        (service.follow kind more entries token s).1 := by
  fun_induction follow service kind more entries token s generalizing record with
  | case1 more entries token s answer t hpage e hread =>
    let r : PageRequest := ⟨kind, token, answer⟩
    refine ⟨[], [], r, ?_, .of_error (r := r) hread⟩
    rw [follow]
    simp only [recorded, hpage, hread, List.nil_append, r]
  | case2 more entries token s answer t hpage p hread all hlast =>
    let r : PageRequest := ⟨kind, token, answer⟩
    refine ⟨[], [], r, ?_, .of_last (r := r) hread hlast⟩
    rw [follow]
    simp only [recorded, hpage, hread, hlast, if_true, List.nil_append, all, r]
  | case3 more entries token s answer t hpage p hread hmore htoken =>
    let r : PageRequest := ⟨kind, token, answer⟩
    have hstuck : ¬ p.LeadsOn token := fun h => htoken.elim h.ne_none h.ne_token
    refine ⟨[], [], r, ?_, .of_stuck (r := r) hread (by simpa using hmore) hstuck⟩
    rw [follow]
    simp only [recorded, hpage, hread, hmore, htoken, Bool.true_eq_false, if_true, if_false,
      List.nil_append, r]
  | case4 entries token s answer t hpage p hread hmore htoken =>
    let r : PageRequest := ⟨kind, token, answer⟩
    refine ⟨[], [], r, ?_, .of_full (r := r) hread (.of_not hmore htoken)⟩
    rw [follow]
    simp only [recorded, hpage, hread, hmore, htoken, Bool.true_eq_false, if_false, List.nil_append,
      r]
  | case5 entries token s answer t hpage p hread all hmore htoken more ih =>
    let r : PageRequest := ⟨kind, token, answer⟩
    obtain ⟨earlier, pages, last, hfollow, hpaging⟩ := ih (record ++ [r])
    refine ⟨r :: earlier, p :: pages, last, ?_, .cons (r := r) hread (.of_not hmore htoken) hpaging⟩
    rw [List.append_assoc] at hfollow
    rw [follow]
    simp only [recorded, hpage, hread, hmore, htoken, Bool.true_eq_false, if_false]
    exact hfollow

end CatalogService

namespace Session

variable {σ : Type} (s : Session σ) {kind : TemplateKind} {since : Option String}

/-- A list that does not come leaves no trace on the desk or in the queue. -/
theorem queue_runTask_of_error {e : FetchError} (h : (s.fetchList kind since).1 = .error e)
    (caller : Caller) (way : Delivering) :
    (runTask caller s (.list kind since, way)).queue = s.queue := by
  unfold runTask ask
  simp only [h, Except.toOption, Option.map_none]
  rfl

/-- A list that comes on another thread waits for the owner of the desk. -/
theorem queue_runTask_of_ok {list : CatalogPage} (h : (s.fetchList kind since).1 = .ok list) :
    (runTask .other s (.list kind since, .onOwner)).queue =
      s.queue.enqueue (.plain (.list kind list)) := by
  unfold runTask ask
  simp only [h, Except.toOption, Option.map_some]
  rfl

/-- A list is fetched in at most as many requests as there may be pages, each with the token of the
page before it. It comes if and only if the last page says that there are no more, and it then has
the entries of all pages in order and the last token. The desk and the queue are as they were until
the list is handed over, and for good if it does not come. -/
theorem lists_in_pages (s : Session σ) (kind : TemplateKind) (since : Option String) :
    (∃ earlier pages last,
      s.service.recorded.fetchAll kind since (s.state, []) = ((s.fetchList kind since).1,
        (s.fetchList kind since).2.state, earlier ++ [last]) ∧
      IsPaging kind CatalogService.pageLimit [] since earlier pages last
        (s.fetchList kind since).1) ∧
    (s.fetchList kind since).2.queue = s.queue ∧
    (∀ e, (s.fetchList kind since).1 = .error e →
      ∀ caller way, (runTask caller s (.list kind since, way)).queue = s.queue) ∧
    (∀ list, (s.fetchList kind since).1 = .ok list →
      (runTask .other s (.list kind since, .onOwner)).queue =
        s.queue.enqueue (.plain (.list kind list)) ∧
      (runTask .other s (.list kind since, .onOwner)).desk = s.desk) := by
  refine ⟨?_, rfl, fun e he caller way => ?_, fun list hlist => ?_⟩
  · exact s.service.exists_isPaging_follow kind (CatalogService.pageLimit - 1) [] since s.state []
  · exact s.queue_runTask_of_error he caller way
  · have hqueue := s.queue_runTask_of_ok hlist
    refine ⟨hqueue, ?_⟩
    rw [desk, hqueue]
    rfl

end Session
end MessageCard
