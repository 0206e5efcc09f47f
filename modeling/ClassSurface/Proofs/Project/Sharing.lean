import ClassSurface.Project.Run
import ClassSurface.Proofs.Registry.Outline
import ClassSurface.Proofs.Registry.Thorough

/-! # Proofs.Project.Sharing — sharing entries makes no difference to what is written

Two registries over one codebase agree when both are idle and have written down the same outlines.
They may share entries or not, and may have come by different ways to what they hold.

* `document_matches`: from registries that agree, a list of classes gives one document, or one
  error, and leads to registries that agree.
* `Stats.collect_eq`: the counts over the classes written down are functions of their outlines.
* `run_sharing`: a run with sharing and a run without give the same report, apart from the number of
  entries.
-/

namespace ClassSurface

variable {c : Codebase} {docs : DocReader}

/-! ### Counts -/

/-- The counts over outlines, in a registry with `classes` entries. -/
def Stats.ofOutlines (classes : Nat) (shown : List Outline) : Stats where
  classes := classes
  inScopeClasses := shown.length
  methods := total (·.ownMethods.length) shown
  dynamicMethods := total (·.dynamicMethods.length) shown
  unresolvedReturns := total (·.ownMethods.countP (·.returnType = Signature.unresolvedType)) shown

namespace Registry

/-- The outlines of the classes written down, in order. -/
def renderedOutlines (r : Registry) : List Outline := r.renderedEntries.map (·.2.outline)

variable {r r' s s' : Registry} {id : ClassId} {e : Entry} {name : String}

theorem renderedOutlines_eq_of_grows (hs : Sound docs r) (hg : Grows r s)
    (hr : s.rendered = r.rendered) : s.renderedOutlines = r.renderedOutlines := by
  have hentries : s.renderedEntries = r.renderedEntries := by
    rw [renderedEntries, renderedEntries, hr]
    refine List.filterMap_congr fun id hid => ?_
    obtain ⟨e, he, hres⟩ := hs.rendered_resolved id (Array.mem_toList_iff.mp hid)
    rw [he, hg.getElem?_of_resolved he hres]
  rw [renderedOutlines, hentries, renderedOutlines]

theorem renderedOutlines_markRendered (he : r.entries[id]? = some e) :
    (r.markRendered id).renderedOutlines = r.renderedOutlines ++ [e.outline] := by
  simp [renderedOutlines, renderedEntries, markRendered, he]

end Registry

theorem Stats.collect_eq (r : Registry) :
    Stats.collect r = Stats.ofOutlines r.size r.renderedOutlines := by
  have hunresolved : ∀ e : Entry,
      e.outline.ownMethods.countP (·.returnType = Signature.unresolvedType) =
        e.ownMethods.countP (·.returnType = Signature.unresolvedType) := by
    intro e
    rw [Entry.ownMethods_outline, List.countP_map]
    rfl
  have hmethods : ∀ e : Entry, e.outline.ownMethods.length = e.ownMethods.length := by
    intro e
    rw [Entry.ownMethods_outline, List.length_map]
  have hdynamic : ∀ e : Entry, e.outline.dynamicMethods.length = e.dynamicMethods.size :=
    fun e => Std.TreeMap.length_toList
  simp only [Stats.collect, Stats.ofOutlines, Registry.renderedOutlines, total_map, List.length_map,
    hunresolved, hmethods, hdynamic]

/-! ### Registries that agree -/

namespace Registry

variable {r r' s s' : Registry} {name : String}

/-- Two idle registries over one codebase that have written down the same. -/
structure Agrees (c : Codebase) (docs : DocReader) (r r' : Registry) : Prop where
  left : SteadySound docs c.view r
  right : SteadySound docs c.view r'
  idle_left : r.stack = []
  idle_right : r'.stack = []
  rendered : r.renderedOutlines = r'.renderedOutlines

/-- Excursions on both sides lead to registries that agree. -/
theorem Agrees.excursion (h : Agrees c docs r r') (hl : Excursion (c.context docs) r s)
    (hr : Excursion (c.context docs) r' s') : Agrees c docs s s' where
  left := hl.steps.steadySound (c.bounded docs).steady h.left
  right := hr.steps.steadySound (c.bounded docs).steady h.right
  idle_left := hl.stack.trans h.idle_left
  idle_right := hr.stack.trans h.idle_right
  rendered := by
    rw [renderedOutlines_eq_of_grows h.left.toSound (hl.steps.grows h.left.toSound) hl.rendered,
      renderedOutlines_eq_of_grows h.right.toSound (hr.steps.grows h.right.toSound) hr.rendered,
      h.rendered]

/-- Registries that agree still do when both write down the same outline. -/
theorem Agrees.render (h : Agrees c docs r r') {id id' : ClassId} {e e' : Entry}
    (he : r.entries[id]? = some e) (hres : e.isResolved = true) (he' : r'.entries[id']? = some e')
    (hres' : e'.isResolved = true) (houtline : e.outline = e'.outline) :
    Agrees c docs (r.markRendered id) (r'.markRendered id') where
  left := Steps.steadySound (c.bounded docs).steady h.left (.single (.render id e he hres))
  right := Steps.steadySound (c.bounded docs).steady h.right (.single (.render id' e' he' hres'))
  idle_left := h.idle_left
  idle_right := h.idle_right
  rendered := by
    rw [renderedOutlines_markRendered he, renderedOutlines_markRendered he', h.rendered, houtline]

/-- Two operations fail with one error or succeed with results that `P` relates, and in both cases
leave registries that agree. -/
def Matches {α : Type} (c : Codebase) (docs : DocReader) (P : α → Registry → α → Registry → Prop)
    (o o' : Outcome α) : Prop :=
  ∀ ⦃res res' : Except ResolveError α⦄ ⦃s s' : Registry⦄, o = some (res, s) → o' = some (res', s') →
    Agrees c docs s s' ∧ ((∃ error, res = .error error ∧ res' = .error error) ∨
      ∃ a a', res = .ok a ∧ res' = .ok a' ∧ P a s a' s')

section Matches

variable {α β : Type} {P : α → Registry → α → Registry → Prop}
  {Q : β → Registry → β → Registry → Prop}

theorem Matches.done (h : Agrees c docs r r') {a a' : α} (hP : P a r a' r') :
    Matches c docs P (some (.ok a, r)) (some (.ok a', r')) := by
  intro res res' s s' ho ho'
  cases ho
  cases ho'
  exact ⟨h, .inr ⟨a, a', rfl, rfl, hP⟩⟩

theorem Matches.andThen {o o' : Outcome α} {f f' : α → Registry → Outcome β}
    (ho : Matches c docs P o o')
    (hf : ∀ a t a' t', Agrees c docs t t' → P a t a' t' → Matches c docs Q (f a t) (f' a' t')) :
    Matches c docs Q (o.andThen f) (o'.andThen f') := by
  intro res res' s s' h h'
  rcases Outcome.andThen_eq_some h with ⟨error, hl, rfl⟩ | ⟨a, t, hl, h⟩ <;>
    rcases Outcome.andThen_eq_some h' with ⟨error', hr, rfl⟩ | ⟨a', t', hr, h'⟩ <;>
    obtain ⟨hagree, ⟨_, heq, heq'⟩ | ⟨_, _, heq, heq', hP⟩⟩ := ho hl hr <;> cases heq <;> cases heq'
  · exact ⟨hagree, .inl ⟨_, rfl, rfl⟩⟩
  · exact hf _ _ _ _ hagree hP h h'

end Matches

/-- The numbers lead to resolved entries with one outline. -/
def SameOutline (id : ClassId) (r : Registry) (id' : ClassId) (r' : Registry) : Prop :=
  ∃ e e', r.entries[id]? = some e ∧ r'.entries[id']? = some e' ∧ e.isResolved = true ∧
    e'.isResolved = true ∧ e.outline = e'.outline

theorem SameOutline.textOf_eq {id id' : ClassId} (h : SameOutline id r id' r') :
    r.textOf id = r'.textOf id' := by
  obtain ⟨e, e', he, he', -, -, houtline⟩ := h
  rw [textOf, textOf, he, he', Option.map_some, Option.map_some, ← Entry.text_outline, houtline,
    Entry.text_outline]

theorem request_matches (h : Agrees c docs r r') (name : String) :
    Matches c docs SameOutline (r.request (c.context docs) name)
      (r'.request (c.context docs) name) := by
  intro res res' s s' hreq hreq'
  have hs := h.excursion (request_excursion h.left.toSound hreq)
    (request_excursion h.right.toSound hreq')
  have hfail : failure? res = failure? res' :=
    (request_failure? h.left h.idle_left hreq).trans
      (request_failure? h.right h.idle_right hreq').symm
  refine ⟨hs, ?_⟩
  rcases res with error | id <;> rcases res' with error' | id' <;> cases hfail
  · exact .inl ⟨error, rfl, rfl⟩
  · obtain ⟨e, he, hname, hres⟩ := provides_of_request h.left.toSound hreq
    obtain ⟨e', he', hname', hres'⟩ := provides_of_request h.right.toSound hreq'
    exact .inr ⟨id, id', rfl, rfl, e, e', he, he', hres, hres',
      outline_eq_of_requested_eq hs.left.toSound hs.left.faithful hs.right.toSound
        hs.right.faithful he hres he' hres' (hname.trans hname'.symm)⟩

/-- Registries that agree give one document, or one error, and still agree afterwards. -/
theorem document_matches (scope : Scope) :
    ∀ (names : List String) {r r' : Registry}, Agrees c docs r r' →
      Matches c docs (fun text _ text' _ => text = text')
        (document (c.context docs) scope names r) (document (c.context docs) scope names r')
  | [], r, r', h => .done h rfl
  | name :: names, r, r', h => by
    rw [document, document]
    split
    · refine (request_matches h name).andThen fun id t id' t' ht hid => ?_
      have htext := hid.textOf_eq
      obtain ⟨e, e', he, he', hres, hres', houtline⟩ := hid
      refine (document_matches scope names (ht.render he hres he' hres' houtline)).andThen ?_
      intro rest u rest' u' hu hrest
      exact .done hu (by rw [htext, hrest])
    · exact document_matches scope names h

/-- A request that succeeds gives an entry with the outline that belongs to the name, and so does
looking the name up afterwards. -/
theorem request_outline {shared : Bool} (hreach : Reachable (c.context docs) shared r)
    {id : ClassId} (h : r.request (c.context docs) name = some (.ok id, s)) :
    ∃ o e first e', c.outline? docs name = some o ∧
      s.entries[id]? = some e ∧ e.isResolved = true ∧ e.outline = o ∧
      s.get name = .ok (first, e') ∧ e'.isResolved = true ∧ e'.outline = o := by
  have hidle := hreach.stack_eq_nil
  have hr : SteadySound docs c.view r := hreach.steadySound (c.bounded docs)
  have hrun := request_excursion hr.toSound h
  have hs : SteadySound docs c.view s := hrun.steps.steadySound (c.bounded docs).steady hr
  have hthorough : Thorough c s := request_thorough hr hidle hreach.thorough name h
  obtain ⟨e, he, rfl, hres⟩ := provides_of_request hr.toSound h
  obtain ⟨first, e', hget, he', hname, hres'⟩ := hthorough.get_resolved (hrun.stack.trans hidle)
    (hs.resolvable hs.faithful he hres) he rfl
  have hsame : e'.outline = e.outline := outline_eq_of_requested_eq hs.toSound hs.faithful
    hs.toSound hs.faithful he' hres' he hres hname
  exact ⟨e.outline, e, first, e', hs.outline_eq he hres, he, hres, rfl, hget, hres', hsame⟩

end Registry

/-! ### Runs -/

namespace Project

/-- A report without the number of entries that its registry came to. -/
def Report.apartFromEntries (report : Report) : Report :=
  { report with stats := { report.stats with classes := 0 } }

/-- The registry that a run starts with. -/
def newRegistry (settings : Settings) (classes : List String) : Registry :=
  { shared := settings.shared, log := #[startEvent settings classes] }

section Run

variable {settings : Settings} {classes : List String} {ctx : Context} {s : Registry}

theorem run_of_error {cause : ResolveError}
    (h : Registry.document ctx settings.scope classes (newRegistry settings classes) =
      some (.error cause, s)) :
    run settings (.ok classes) ctx = some (.error (.resolution cause), s.log.toList) := by
  rw [newRegistry] at h
  rw [run, h]

theorem run_of_ok {text : String}
    (h : Registry.document ctx settings.scope classes (newRegistry settings classes) =
      some (.ok text, s)) :
    run settings (.ok classes) ctx =
      some (.ok ⟨text, Stats.collect s⟩, (s.report [endEvent (Stats.collect s)]).log.toList) := by
  rw [newRegistry] at h
  rw [run, h]

end Run

open Registry in
/-- Runs that differ in sharing only come to an end and report the same, apart from the number of
entries. -/
theorem run_sharing (c : Codebase) (docs : DocReader) (settings : Settings)
    (classes : Except SourceError (List String)) :
    ∃ res log res' log', run (settings.sharing true) classes (c.context docs) = some (res, log) ∧
      run (settings.sharing false) classes (c.context docs) = some (res', log') ∧
      res.map Report.apartFromEntries = res'.map Report.apartFromEntries := by
  cases classes with
  | error cause => exact ⟨_, _, _, _, rfl, rfl, rfl⟩
  | ok classes =>
    have hnew : ∀ shared, SteadySound docs c.view (newRegistry (settings.sharing shared) classes) :=
      fun shared => steadySound_of_empty rfl rfl rfl
    have hends : ∀ shared, ∃ res s, document (c.context docs) settings.scope classes
        (newRegistry (settings.sharing shared) classes) = some (res, s) := by
      intro shared
      obtain ⟨⟨res, s⟩, h⟩ := Option.isSome_iff_exists.mp
        (document_isSome (c.bounded docs) settings.scope classes (hnew shared))
      exact ⟨res, s, h⟩
    obtain ⟨res, s, hl⟩ := hends true
    obtain ⟨res', s', hr⟩ := hends false
    have hstart : Agrees c docs (newRegistry (settings.sharing true) classes)
        (newRegistry (settings.sharing false) classes) := ⟨hnew true, hnew false, rfl, rfl, rfl⟩
    obtain ⟨hagree, ⟨cause, rfl, rfl⟩ | ⟨text, text', rfl, rfl, rfl⟩⟩ :=
      document_matches settings.scope classes hstart hl hr
    · exact ⟨_, _, _, _, run_of_error hl, run_of_error hr, rfl⟩
    · refine ⟨_, _, _, _, run_of_ok hl, run_of_ok hr, ?_⟩
      rw [Except.map, Except.map, Stats.collect_eq, Stats.collect_eq, hagree.rendered]
      rfl

open Registry in
/-- **Sharing is invisible**: a run with sharing and a run without fail alike or write the same
document with the same counts; and in every registry, shared or not and whatever was done with it, a
request that succeeds gives an entry whose outline and text belong to codebase, documentation and
name alone, and looking the name up gives a resolved entry with the same outline and text. -/
theorem sharing_invisible (c : Codebase) (docs : DocReader) :
    (∀ (settings : Settings) (classes : Except SourceError (List String)), ∃ res log res' log',
      run (settings.sharing true) classes (c.context docs) = some (res, log) ∧
      run (settings.sharing false) classes (c.context docs) = some (res', log') ∧
      res.map Report.apartFromEntries = res'.map Report.apartFromEntries) ∧
    ∀ (shared : Bool) (ops : List Op) (name : String), ∃ answers r res s,
      play (c.context docs) ops { shared } = some (answers, r) ∧
      r.request (c.context docs) name = some (res, s) ∧
      ((∃ error, res = .error error ∧ c.firstDefect [] name = some error) ∨
        ∃ id o e first e', res = .ok id ∧ c.outline? docs name = some o ∧
          s.entries[id]? = some e ∧ s.stateOf id e = .resolved ∧ e.outline = o ∧ e.text = o.text ∧
          s.get name = .ok (first, e') ∧ s.stateOf first e' = .resolved ∧ e'.outline = o ∧
          e'.text = o.text) := by
  refine ⟨run_sharing c docs, fun shared ops name => ?_⟩
  obtain ⟨answers, r, res, s, hplay, hreq, hfail⟩ := exists_request c docs shared ops name
  refine ⟨answers, r, res, s, hplay, hreq, ?_⟩
  cases res with
  | error error => exact .inl ⟨error, rfl, hfail.symm⟩
  | ok id =>
    obtain ⟨o, e, first, e', ho, he, hres, rfl, hget, hres', hsame⟩ :=
      request_outline ⟨ops, answers, hplay⟩ hreq
    refine .inr ⟨id, e.outline, e, first, e', rfl, ho, he, stateOf_eq_resolved_iff.mpr hres, rfl,
      e.text_outline.symm, hget, stateOf_eq_resolved_iff.mpr hres', hsame, ?_⟩
    rw [← hsame, Entry.text_outline]

end Project

end ClassSurface
