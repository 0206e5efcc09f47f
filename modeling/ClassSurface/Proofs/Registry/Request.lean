import ClassSurface.Proofs.Registry.Step

/-! # Proofs.Registry.Request — every operation is a run of steps

`Resolving` and `Requesting` list the ways in which an attempt to resolve an entry and a request can
go; whatever is proved of requests is proved along these cases.

* `Excursion`: a run that leaves the stack as it found it and writes no class down.
* `Delivers`: what a way of requesting classes promises. It makes an excursion, and on success gives
  the number of an entry that provides the class.
* `requestWithin_delivers`: requests keep this promise, however deep they may nest. The promise of
  the requests nested in a request is the induction hypothesis.
* `document_steps`, `resolve_steps`, `resolveClass_steps`: the other operations go by steps too.
-/

namespace ClassSurface.Registry

variable {ctx : Context} {docs : DocReader} {r s t : Registry} {id : ClassId} {e : Entry}
  {name : String} {request : String → Registry → Outcome ClassId}

/-! ### The ways a request can go -/

/-- The ways in which an attempt to resolve the entry `e` can go. -/
inductive Resolving (docs : DocReader) (request : String → Registry → Outcome ClassId)
    (id : ClassId) (e : Entry) (r : Registry) : Except ResolveError Unit → Registry → Prop where
  /-- It was resolved before. -/
  | before (done : e.isResolved = true) : Resolving docs request id e r (.ok ()) r
  | reentered (open_ : e.isResolved = false) (way : r.isUnderWay id e = true) :
      Resolving docs request id e r (.error (.reentrant e.name)) r
  /-- An ancestor cannot be had. -/
  | failed (open_ : e.isResolved = false) (free : r.isUnderWay id e = false) (error : ResolveError)
      (t : Registry)
      (all : requestAll request e.view.ancestors (r.takeUp id e) = some (.error error, t)) :
      Resolving docs request id e r (.error error) t.leave
  | completed (open_ : e.isResolved = false) (free : r.isUnderWay id e = false)
      (ancestors : List ClassId) (t : Registry)
      (all : requestAll request e.view.ancestors (r.takeUp id e) = some (.ok ancestors, t)) :
      Resolving docs request id e r (.ok ()) (t.complete docs id e.view ancestors).leave

theorem resolving_of_resolveWith {res : Except ResolveError Unit}
    (h : resolveWith docs request id e r = some (res, s)) :
    Resolving docs request id e r res s := by
  rw [resolveWith] at h
  split at h
  · rename_i hres
    cases h
    exact .before hres
  · rename_i hopen
    have hopen : e.isResolved = false := by simpa using hopen
    split at h
    · rename_i hway
      cases h
      exact .reentered hopen hway
    · rename_i hfree
      have hfree : r.isUnderWay id e = false := by simpa using hfree
      split at h
      · cases h
      · rename_i error t hall
        cases h
        exact .failed hopen hfree error t hall
      · rename_i ancestors t hall
        cases h
        exact .completed hopen hfree ancestors t hall

theorem resolveWith_of_resolved (docs : DocReader) (request : String → Registry → Outcome ClassId)
    (id : ClassId) (hres : e.isResolved = true) (r : Registry) :
    resolveWith docs request id e r = some (.ok (), r) := by
  rw [resolveWith, if_pos hres]

/-- A request that leaves the requests nested in it to `nested`. -/
def requestBy (ctx : Context) (nested : String → Registry → Outcome ClassId) (name : String)
    (r : Registry) : Outcome ClassId :=
  match r.reusable? name with
  | some (id, e) => (resolveWith ctx.docs nested id e r).andThen fun _ s => some (.ok id, s)
  | none =>
    match ctx.source.answer r.queries name with
    | .error error => some (.error (.source error), r.countQuery)
    | .ok view =>
      (resolveWith ctx.docs nested r.size (r.newEntry name view) (r.accept name view)).andThen
        fun _ s => some (.ok r.size, s)

theorem requestWithin_succ (ctx : Context) (depth : Nat) :
    requestWithin ctx (depth + 1) = requestBy ctx (requestWithin ctx depth) := rfl

/-- The ways in which a request for `name` can go, if `request` serves the requests nested in it. -/
inductive Requesting (ctx : Context) (request : String → Registry → Outcome ClassId) (name : String)
    (r : Registry) : Except ResolveError ClassId → Registry → Prop where
  /-- There is an entry to share. -/
  | found (id : ClassId) (e : Entry) (res : Except ResolveError Unit) (s : Registry)
      (found : r.reusable? name = some (id, e)) (at_id : r.entries[id]? = some e)
      (requested : e.requested = name) (run : Resolving ctx.docs request id e r res s) :
      Requesting ctx request name r (res.map fun _ => id) s
  | refused (error : SourceError) (miss : r.reusable? name = none)
      (answer : ctx.source.answer r.queries name = .error error) :
      Requesting ctx request name r (.error (.source error)) r.countQuery
  | accepted (view : ClassView) (res : Except ResolveError Unit) (s : Registry)
      (miss : r.reusable? name = none) (answer : ctx.source.answer r.queries name = .ok view)
      (run : Resolving ctx.docs request r.size (r.newEntry name view) (r.accept name view)
        res s) :
      Requesting ctx request name r (res.map fun _ => r.size) s

theorem find?_of_reusable? (h : r.reusable? name = some (id, e)) : r.find? name = some (id, e) := by
  rw [reusable?] at h
  split at h
  · exact h
  · cases h

theorem requesting_of_requestWithin {depth : Nat} {res : Except ResolveError ClassId}
    (h : requestWithin ctx (depth + 1) name r = some (res, s)) :
    Requesting ctx (requestWithin ctx depth) name r res s := by
  rw [requestWithin] at h
  split at h
  · rename_i id e hfound
    obtain ⟨hid, he⟩ := find?_eq_some_iff.mp (find?_of_reusable? hfound)
    obtain ⟨⟨e', he', hname⟩, -⟩ := idOf?_eq_some_iff.mp hid
    obtain rfl : e = e' := Option.some.inj (he.symm.trans he')
    obtain ⟨res', hres, rfl⟩ := Outcome.andThen_ok_eq_some h
    exact .found id e res' s hfound he hname (resolving_of_resolveWith hres)
  · rename_i hmiss
    split at h
    · rename_i error hanswer
      cases h
      exact .refused error hmiss hanswer
    · rename_i view hanswer
      obtain ⟨res', hres, rfl⟩ := Outcome.andThen_ok_eq_some h
      exact .accepted view res' s hmiss hanswer (resolving_of_resolveWith hres)

/-- Requests in a row fail at the first name, or go on with the others. -/
theorem requestAll_cons_eq_some {names : List String} {res : Except ResolveError (List ClassId)}
    (h : requestAll request (name :: names) r = some (res, s)) :
    (∃ error, request name r = some (.error error, s) ∧ res = .error error) ∨
      ∃ id t res', request name r = some (.ok id, t) ∧
        requestAll request names t = some (res', s) ∧ res = res'.map (id :: ·) := by
  rcases Outcome.andThen_eq_some h with herror | ⟨id, t, hname, h⟩
  · exact .inl herror
  · obtain ⟨res', hall, rfl⟩ := Outcome.andThen_ok_eq_some h
    exact .inr ⟨id, t, res', hname, hall, rfl⟩

/-- Requests in a row are those of a first part and then those of the rest. -/
theorem requestAll_append (request : String → Registry → Outcome ClassId) (xs ys : List String)
    (r : Registry) :
    requestAll request (xs ++ ys) r =
      (requestAll request xs r).andThen fun ids s =>
        (requestAll request ys s).andThen fun others t => some (.ok (ids ++ others), t) := by
  induction xs generalizing r with
  | nil =>
    rw [List.nil_append, requestAll, Outcome.andThen_ok]
    simp only [List.nil_append, Outcome.andThen_done]
  | cons x xs ih =>
    rw [List.cons_append, requestAll, requestAll]
    simp only [ih, Outcome.andThen_assoc, Outcome.andThen_ok, List.cons_append]

/-! ### Excursions -/

/-- A run that comes back to the stack it started from and writes no class down. -/
structure Excursion (ctx : Context) (r s : Registry) : Prop where
  steps : Steps ctx r s
  stack : s.stack = r.stack
  rendered : s.rendered = r.rendered

theorem Excursion.refl (r : Registry) : Excursion ctx r r := ⟨.refl, rfl, rfl⟩

theorem Excursion.trans (h : Excursion ctx r s) (h' : Excursion ctx s t) : Excursion ctx r t :=
  ⟨h.steps.trans h'.steps, h'.stack.trans h.stack, h'.rendered.trans h.rendered⟩

/-- Requests are excursions that provide what they are asked for. -/
def Delivers (ctx : Context) (request : String → Registry → Outcome ClassId) : Prop :=
  ∀ ⦃name : String⦄ ⦃r : Registry⦄ ⦃res : Except ResolveError ClassId⦄ ⦃s : Registry⦄,
    Sound ctx.docs r → request name r = some (res, s) →
      Excursion ctx r s ∧ ∀ id, res = .ok id → s.Provides id name

/-- Requests made one after the other provide all that they are asked for. -/
theorem requestAll_delivers (hreq : Delivers ctx request) :
    ∀ (names : List String) {r : Registry} {res : Except ResolveError (List ClassId)}
      {s : Registry}, Sound ctx.docs r → requestAll request names r = some (res, s) →
      Excursion ctx r s ∧ ∀ ids, res = .ok ids → List.Forall₂ s.Provides ids names
  | [], r, res, s, _, h => by
    cases h
    refine ⟨.refl r, fun ids hids => ?_⟩
    cases hids
    exact .nil
  | name :: names, r, res, s, hs, h => by
    rcases requestAll_cons_eq_some h with ⟨error, hname, rfl⟩ | ⟨id, t, res', hname, hall, rfl⟩
    · exact ⟨(hreq hs hname).1, fun ids hids => nomatch hids⟩
    · obtain ⟨hrun, hprov⟩ := hreq hs hname
      have ht := hrun.steps.sound hs
      obtain ⟨hrun', hall⟩ := requestAll_delivers hreq names ht hall
      refine ⟨hrun.trans hrun', fun ids hids => ?_⟩
      cases res' with
      | error error => cases hids
      | ok rest =>
        cases hids
        exact .cons ((hprov id rfl).mono (hrun'.steps.grows ht)) (hall rest rfl)

/-- After its ancestors have been requested, an entry stands on top of the stack again. -/
theorem Excursion.back_to_top (h : Excursion ctx (r.takeUp id e) t) :
    t.stack = id :: r.stack ∧ t.stack.tail = r.stack ∧ t.rendered = r.rendered := by
  have hstack : t.stack = id :: r.stack := h.stack
  exact ⟨hstack, by rw [hstack, List.tail_cons], h.rendered⟩

/-- With all its ancestors provided, the entry on top of the stack can be completed. -/
theorem step_complete (hreq : Delivers ctx request) (hs : Sound ctx.docs r)
    (he : r.entries[id]? = some e) (hopen : e.isResolved = false)
    (hfree : r.isUnderWay id e = false) {ancestors : List ClassId}
    (hall : requestAll request e.view.ancestors (r.takeUp id e) = some (.ok ancestors, t)) :
    Step ctx t (t.complete ctx.docs id e.view ancestors).leave := by
  have henter : Step ctx r (r.takeUp id e) := .enter id e he hopen hfree
  have hs₁ := henter.sound hs
  obtain ⟨hrun, hprov⟩ := requestAll_delivers hreq _ hs₁ hall
  -- the entry has kept its view while its ancestors were requested
  obtain ⟨e', he', -, -, hview, -⟩ := (hrun.steps.grows hs₁).entries he
  have hprov := hprov ancestors rfl
  rw [← hview] at hprov ⊢
  exact .complete id r.stack e' ancestors hrun.back_to_top.1 he' hprov

/-- Resolving an entry is an excursion that, on success, leaves the entry resolved. -/
theorem Resolving.delivers (hreq : Delivers ctx request) (hs : Sound ctx.docs r)
    (he : r.entries[id]? = some e) {res : Except ResolveError Unit}
    (h : Resolving ctx.docs request id e r res s) :
    Excursion ctx r s ∧ (res = .ok () → s.Provides id e.requested) := by
  cases h with
  | before hres => exact ⟨.refl r, fun _ => ⟨e, he, rfl, hres⟩⟩
  | reentered => exact ⟨.refl r, fun hres => nomatch hres⟩
  | failed hopen hfree error t hall =>
    have henter : Step ctx r (r.takeUp id e) := .enter id e he hopen hfree
    obtain ⟨hrun, -⟩ := requestAll_delivers hreq _ (henter.sound hs) hall
    obtain ⟨htop, htail, hrendered⟩ := hrun.back_to_top
    exact ⟨⟨(hrun.steps.head henter).tail (.abandon id r.stack htop), htail, hrendered⟩,
      fun hres => nomatch hres⟩
  | completed hopen hfree ancestors t hall =>
    have henter : Step ctx r (r.takeUp id e) := .enter id e he hopen hfree
    have hs₁ := henter.sound hs
    obtain ⟨hrun, -⟩ := requestAll_delivers hreq _ hs₁ hall
    obtain ⟨-, htail, hrendered⟩ := hrun.back_to_top
    obtain ⟨e', he', -, hreq', -⟩ := (hrun.steps.grows hs₁).entries he
    refine ⟨⟨(hrun.steps.head henter).tail (step_complete hreq hs he hopen hfree hall), htail,
      hrendered⟩, fun _ => ?_⟩
    refine ⟨{ e' with surface := some (t.surface ctx.docs id e.view ancestors) }, ?_, hreq', rfl⟩
    rw [getElem?_complete, if_pos rfl, he']
    rfl

theorem accept_excursion {view : ClassView} (hmiss : r.reusable? name = none)
    (hanswer : ctx.source.answer r.queries name = .ok view) :
    Excursion ctx r (r.accept name view) :=
  ⟨.single (.accept name view hmiss hanswer), rfl, rfl⟩

/-- Requests deliver, whatever the source answers and however deep they may nest. -/
theorem requestWithin_delivers (ctx : Context) :
    ∀ depth : Nat, Delivers ctx (requestWithin ctx depth)
  | 0 => fun _ _ _ _ _ h => nomatch h
  | depth + 1 => by
    intro name r res s hs h
    have ih := requestWithin_delivers ctx depth
    cases requesting_of_requestWithin h with
    | found id e res _ hfound he hname run =>
      obtain ⟨hrun, hprov⟩ := run.delivers ih hs he
      refine ⟨hrun, fun id' hid => ?_⟩
      cases res with
      | error error => cases hid
      | ok _ =>
        cases hid
        exact hname ▸ hprov rfl
    | refused error hmiss hanswer =>
      exact ⟨⟨.single (.refuse name error hmiss hanswer), rfl, rfl⟩, fun id hid => nomatch hid⟩
    | accepted view res _ hmiss hanswer run =>
      have haccept := accept_excursion hmiss hanswer
      obtain ⟨hrun, hprov⟩ := run.delivers ih (haccept.steps.sound hs)
        (getElem?_accept_size r name view)
      refine ⟨haccept.trans hrun, fun id hid => ?_⟩
      cases res with
      | error error => cases hid
      | ok _ =>
        cases hid
        exact hprov rfl

/-! ### The public operations -/

/-- Whatever comes of an operation on `r` is reached by steps that leave the stack as it was. -/
def GoesBySteps {α : Type} (ctx : Context) (r : Registry) (o : Outcome α) : Prop :=
  ∀ ⦃res : Except ResolveError α⦄ ⦃s : Registry⦄, o = some (res, s) →
    Steps ctx r s ∧ s.stack = r.stack

theorem GoesBySteps.done {α : Type} (res : Except ResolveError α) :
    GoesBySteps ctx r (some (res, r)) := by
  intro res' s h
  cases h
  exact ⟨.refl, rfl⟩

/-- Two operations in a row go by steps if the second does after each success of the first. -/
theorem GoesBySteps.andThen {α β : Type} {o : Outcome α} {f : α → Registry → Outcome β}
    (ho : GoesBySteps ctx r o) (hf : ∀ a t, o = some (.ok a, t) → GoesBySteps ctx t (f a t)) :
    GoesBySteps ctx r (o.andThen f) := by
  intro res s h
  rcases Outcome.andThen_eq_some h with ⟨error, ho', -⟩ | ⟨a, t, ho', h⟩
  · exact ho ho'
  · obtain ⟨hsteps, hstack⟩ := ho ho'
    obtain ⟨hsteps', hstack'⟩ := hf a t ho' h
    exact ⟨hsteps.trans hsteps', hstack'.trans hstack⟩

theorem request_excursion (hs : Sound ctx.docs r) {res : Except ResolveError ClassId}
    (h : r.request ctx name = some (res, s)) : Excursion ctx r s :=
  (requestWithin_delivers ctx ctx.source.depth hs h).1

theorem provides_of_request (hs : Sound ctx.docs r) (h : r.request ctx name = some (.ok id, s)) :
    s.Provides id name :=
  (requestWithin_delivers ctx ctx.source.depth hs h).2 id rfl

theorem resolve_of_resolved (ctx : Context) (hid : id < r.entries.size)
    (hres : r.entries[id].isResolved = true) : r.resolve ctx id hid = some (.ok (), r) :=
  resolveWith_of_resolved ctx.docs _ id hres r

/-- To make sure of the entry that was given for a class changes nothing. -/
theorem resolveClass_eq (hs : Sound ctx.docs r) (name : String) :
    r.resolveClass ctx name = r.request ctx name := by
  rw [resolveClass]
  rcases hreq : r.request ctx name with _ | ⟨error | id, t⟩
  · rfl
  · rfl
  · obtain ⟨e, he, -, hres⟩ := provides_of_request hs hreq
    obtain ⟨hid, rfl⟩ := Array.getElem?_eq_some_iff.mp he
    rw [Outcome.andThen_ok, dif_pos hid, resolve_of_resolved ctx hid hres, Outcome.andThen_ok]

theorem request_steps (hs : Sound ctx.docs r) (name : String) :
    GoesBySteps ctx r (r.request ctx name) := by
  intro res s h
  have hrun := request_excursion hs h
  exact ⟨hrun.steps, hrun.stack⟩

theorem resolve_steps (hs : Sound ctx.docs r) (hid : id < r.entries.size) :
    GoesBySteps ctx r (r.resolve ctx id hid) := by
  intro res s h
  obtain ⟨hrun, -⟩ := (resolving_of_resolveWith h).delivers
    (requestWithin_delivers ctx ctx.source.depth) hs (Array.getElem?_eq_getElem hid)
  exact ⟨hrun.steps, hrun.stack⟩

theorem resolveClass_steps (hs : Sound ctx.docs r) (name : String) :
    GoesBySteps ctx r (r.resolveClass ctx name) := by
  refine (request_steps hs name).andThen fun id t hreq => ?_
  have ht := ((request_steps hs name) hreq).1.sound hs
  split
  · exact (resolve_steps ht _).andThen fun _ u _ => .done _
  · exact .done _

theorem document_steps (scope : Scope) :
    ∀ (names : List String) {r : Registry}, Sound ctx.docs r →
      GoesBySteps ctx r (document ctx scope names r)
  | [], r, _ => .done _
  | name :: names, r, hs => by
    rw [document]
    split
    · refine (request_steps hs name).andThen fun id t hreq => ?_
      have ht := ((request_steps hs name) hreq).1.sound hs
      obtain ⟨e, he, -, hres⟩ := provides_of_request hs hreq
      have hrender : Step ctx t (t.markRendered id) := .render id e he hres
      -- the class is written down before the rest of the list is taken up
      have hrest : GoesBySteps ctx t (document ctx scope names (t.markRendered id)) := by
        intro res s h
        obtain ⟨hsteps, hstack⟩ := document_steps scope names (hrender.sound ht) h
        exact ⟨hsteps.head hrender, hstack⟩
      exact hrest.andThen fun _ u _ => .done _
    · exact document_steps scope names hs

end ClassSurface.Registry
