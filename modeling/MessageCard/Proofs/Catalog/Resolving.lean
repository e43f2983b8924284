import MessageCard.Proofs.Catalog.Traffic

/-!
# Resolving, and asking next

What a message shows tells whether a download has to be asked for, and a request decides by itself
whether it starts one. The two look at the same desk at different moments, and between them lies
what resolving itself does: an entry that is no template is dropped, and this costs an attempt,
maybe the last one. Both agree, since what is shown is chosen after the entry is gone.
-/
namespace MessageCard

namespace Downloads

variable {d : Downloads} {kind : TemplateKind} {key : String} {s : StandInSettings}

/-- The ways in which a message is resolved, each with what it shows and the downloads after it. -/
inductive Resolves (d : Downloads) (kind : TemplateKind) (p : Payload) (s : StandInSettings) :
    Resolution → Downloads → Prop
  | missing (absent : d.shelf.get? kind p.key = none) :
      Resolves d kind p s (d.notReady kind p.key s (.missing p.key)) d
  | miscolored {entry : TemplateEntry} {e : ColorError}
      (held : d.shelf.get? kind p.key = some entry)
      (rejected : readColors s.theme.mode entry.colors.entries = .error e) :
      Resolves d kind p s (failed s (.color e)) d
  | ready {entry : TemplateEntry} {colors : ColorVariables} {template : Template}
      (held : d.shelf.get? kind p.key = some entry)
      (colored : readColors s.theme.mode entry.colors.entries = .ok colors)
      (reads : readTemplate (Placeholder.bind p.values (colors.on s.appearance) entry.ui) =
        .ok template) :
      Resolves d kind p s
        (.ready template (Placeholder.bind p.values (colors.on s.appearance) entry.data)) d
  | unreadable {entry : TemplateEntry} {colors : ColorVariables} {f : TemplateFault}
      (held : d.shelf.get? kind p.key = some entry)
      (colored : readColors s.theme.mode entry.colors.entries = .ok colors)
      (fails : readTemplate (Placeholder.bind p.values (colors.on s.appearance) entry.ui) =
        .error f) :
      Resolves d kind p s ((d.drop kind p.key).notReady kind p.key s (.parse f))
        (d.drop kind p.key)

/-- Every message is resolved in one of these ways. -/
theorem resolves (d : Downloads) (kind : TemplateKind) (p : Payload) (s : StandInSettings) :
    Resolves d kind p s (d.resolve kind p s).1 (d.resolve kind p s).2 := by
  cases held : d.shelf.get? kind p.key with
  | none =>
    simp only [resolve, held]
    exact .missing held
  | some entry =>
    cases colored : readColors s.theme.mode entry.colors.entries with
    | error e =>
      simp only [resolve, held, colored]
      exact .miscolored held colored
    | ok colors =>
      cases reads : readTemplate (Placeholder.bind p.values (colors.on s.appearance) entry.ui) with
      | ok template =>
        simp only [resolve, held, colored, reads]
        exact .ready held colored reads
      | error f =>
        simp only [resolve, held, colored, reads]
        exact .unreadable held colored reads

theorem notReady_eq_downloading {e : TemplateError} {body : List Item} {needs : Bool}
    (h : d.notReady kind key s e = .downloading body needs) :
    d.attempts.allows key = true ∧ needs = !d.isRunning kind key := by
  unfold notReady at h
  split at h
  · next hallows =>
    cases h
    exact ⟨hallows, rfl⟩
  · cases h

theorem notReady_eq_failed {e f : TemplateError} {body : List Item}
    (h : d.notReady kind key s e = .failed body f) : d.attempts.allows key = false ∧ f = e := by
  unfold notReady at h
  split at h
  · cases h
  · next hallows =>
    cases h
    exact ⟨Bool.eq_false_iff.mpr hallows, rfl⟩

theorem notReady_ne_ready (e : TemplateError) (template : Template) (data : String) :
    d.notReady kind key s e ≠ .ready template data := by
  unfold notReady
  split <;> nofun

/-- A request starts a download exactly if a stand-in for one says that it is yet to be asked
for. -/
theorem isSome_request?_of_downloading {e : TemplateError} {body : List Item} {needs : Bool}
    (h : d.notReady kind key s e = .downloading body needs) :
    (d.request? kind key).isSome = needs := by
  obtain ⟨hallows, rfl⟩ := notReady_eq_downloading h
  cases hrunning : d.isRunning kind key <;> simp [request?, hallows, hrunning]

/-- After a failure for want of a template a request starts nothing. -/
theorem isSome_request?_of_failed {e f : TemplateError} {body : List Item}
    (h : d.notReady kind key s e = .failed body f) : (d.request? kind key).isSome = false := by
  simp [request?, (notReady_eq_failed h).1]

end Downloads

namespace Traffic

variable {t u : Traffic}

theorem exists_request_iff {kind : TemplateKind} {key : String} :
    (∃ v, Step t (.request kind key) v) ↔ (t.downloads.request? kind key).isSome = true := by
  constructor
  · rintro ⟨v, hstep⟩
    cases hstep with
    | request starts => exact starts ▸ rfl
  · intro h
    obtain ⟨d, hd⟩ := Option.isSome_iff_exists.mp h
    exact ⟨_, .request hd⟩

/-- A message is resolved at any time. If it waits for a download, then a request made next starts
one exactly if the message says that one is to be asked for. If it failed because its template is
missing or cannot be read, such a request starts nothing. -/
theorem request_agrees_with_resolve {kind : TemplateKind} {p : Payload} {s : StandInSettings}
    (hstep : Step t (.aside (.resolve kind p s)) u) :
    (∀ body needs, (t.downloads.resolve kind p s).1 = .downloading body needs →
      ((∃ v, Step u (.request kind p.key) v) ↔ needs = true)) ∧
    ∀ body e, (t.downloads.resolve kind p s).1 = .failed body e →
      (e = .missing p.key ∨ ∃ f, e = .parse f) → ¬∃ v, Step u (.request kind p.key) v := by
  have hafter : u.downloads = (t.downloads.resolve kind p s).2 := by
    cases hstep
    rfl
  have hresolves := t.downloads.resolves kind p s
  rw [exists_request_iff, hafter]
  generalize (t.downloads.resolve kind p s).1 = r,
    (t.downloads.resolve kind p s).2 = d at hresolves
  cases hresolves with
  | missing absent =>
    refine ⟨fun body needs hr => ?_, fun body e hr _ => ?_⟩
    · rw [Downloads.isSome_request?_of_downloading hr]
    · rw [Downloads.isSome_request?_of_failed hr]
      exact Bool.false_ne_true
  | miscolored held rejected =>
    refine ⟨fun body needs hr => (nomatch hr), fun body e hr he => ?_⟩
    cases hr
    rcases he with he | ⟨f, he⟩ <;> cases he
  | ready held colored reads =>
    exact ⟨fun body needs hr => (nomatch hr), fun body e hr => (nomatch hr)⟩
  | unreadable held colored fails =>
    refine ⟨fun body needs hr => ?_, fun body e hr _ => ?_⟩
    · rw [Downloads.isSome_request?_of_downloading hr]
    · rw [Downloads.isSome_request?_of_failed hr]
      exact Bool.false_ne_true

/-- An entry that is no template, with two attempts and with one: dropping it leaves an attempt for
a download, or none. -/
theorem request_after_drop :
    (∃ t u s, t.limit = 2 ∧ Step t (.aside (.resolve .message ⟨"k", []⟩ s)) u ∧ u.count "k" = 1 ∧
      ∃ v, Step u (.request .message "k") v) ∧
    ∃ t u s, t.limit = 1 ∧ Step t (.aside (.resolve .message ⟨"k", []⟩ s)) u ∧ u.count "k" = 1 ∧
      ¬∃ v, Step u (.request .message "k") v := by
  obtain ⟨body, hwaits⟩ : ∃ body, ((opening (Shelf.empty.insert .message ⟨"k", "x", "", .empty⟩)
      (.ofLimit 2)).downloads.resolve .message ⟨"k", []⟩ ⟨.standard, .light, 0⟩).1 =
        .downloading body true := ⟨_, rfl⟩
  obtain ⟨body', f, hfails⟩ : ∃ body f, ((opening (Shelf.empty.insert .message
      ⟨"k", "x", "", .empty⟩) (.ofLimit 1)).downloads.resolve .message ⟨"k", []⟩
        ⟨.standard, .light, 0⟩).1 = .failed body (.parse f) := ⟨_, _, rfl⟩
  have hstarts := (request_agrees_with_resolve (.aside _)).1 body true hwaits
  have hspent := (request_agrees_with_resolve (.aside _)).2 body' _ hfails (.inr ⟨f, rfl⟩)
  exact ⟨⟨_, _, _, rfl, .aside _, rfl, hstarts.mpr rfl⟩, _, _, _, rfl, .aside _, rfl, hspent⟩

end Traffic
end MessageCard
