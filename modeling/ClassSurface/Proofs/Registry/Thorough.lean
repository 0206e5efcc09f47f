import ClassSurface.Proofs.Registry.Resolvability

/-! # Proofs.Registry.Thorough — no resolvable class is left open

Failed requests leave open entries behind, but none whose name is resolvable: what is requested
under such a name succeeds, wherever it is requested from. So between operations every entry of a
resolvable name is resolved, also one that the latest request has not come by, and looking such a
name up gives a resolved entry (`Thorough.get_resolved`).
-/

namespace ClassSurface.Registry

variable {c : Codebase} {docs : DocReader} {r s : Registry} {id : ClassId} {e : Entry}
  {name : String} {shared : Bool}

/-- Every entry of a resolvable name is resolved or under way. -/
def Thorough (c : Codebase) (r : Registry) : Prop :=
  ∀ (id : ClassId) (e : Entry), r.entries[id]? = some e → c.Resolvable e.requested →
    id ∈ r.stack ∨ e.isResolved = true

/-- Every entry of a resolvable name is resolved or stands in `stack`, number `id` apart. -/
def ThoroughBut (c : Codebase) (id : ClassId) (stack : List ClassId) (r : Registry) : Prop :=
  ∀ (i : ClassId) (e : Entry), i ≠ id → r.entries[i]? = some e → c.Resolvable e.requested →
    i ∈ stack ∨ e.isResolved = true

/-- Requests leave no entry of a resolvable name open. -/
def KeepsThorough (c : Codebase) (docs : DocReader)
    (request : String → Registry → Outcome ClassId) : Prop :=
  ∀ ⦃name : String⦄ ⦃r : Registry⦄ ⦃res : Except ResolveError ClassId⦄ ⦃s : Registry⦄,
    SteadySound docs c.view r → LeadsTo c r name → Thorough c r → request name r = some (res, s) →
      Thorough c s

section Nested

variable {request : String → Registry → Outcome ClassId}

theorem requestAll_thorough (hreq : Delivers (c.context docs) request)
    (hkeep : KeepsThorough c docs request) :
    ∀ (names : List String) {r : Registry} {res : Except ResolveError (List ClassId)}
      {s : Registry}, SteadySound docs c.view r → (∀ n ∈ names, LeadsTo c r n) → Thorough c r →
      requestAll request names r = some (res, s) → Thorough c s
  | [], r, res, s, _, _, hr, h => by
    cases h
    exact hr
  | name :: names, r, res, s, hs, hpath, hr, h => by
    have hhead := hpath name List.mem_cons_self
    rcases requestAll_cons_eq_some h with ⟨error, hname, rfl⟩ | ⟨id, t, res', hname, hall, rfl⟩
    · exact hkeep hs hhead hr hname
    · obtain ⟨hrun, -⟩ := hreq hs.toSound hname
      have ht : SteadySound docs c.view t := hrun.steps.steadySound (c.bounded docs).steady hs
      have hway : t.underWay = r.underWay := underWay_excursion hs.toSound hrun
      exact requestAll_thorough hreq hkeep names ht
        (fun n hn => (hpath n (List.mem_cons_of_mem _ hn)).congr hway)
        (hkeep hs hhead hr hname) hall

/-- While the ancestors of an entry are requested, nothing but the entry is left open. -/
theorem requestAll_thoroughBut (hreq : Delivers (c.context docs) request)
    (hkeep : KeepsThorough c docs request) (hs : SteadySound docs c.view r)
    (he : r.entries[id]? = some e) (hpath : LeadsTo c r e.requested)
    (hopen : e.isResolved = false) (hfree : r.isUnderWay id e = false)
    (hothers : ThoroughBut c id r.stack r) {res : Except ResolveError (List ClassId)}
    (h : requestAll request e.view.ancestors (r.takeUp id e) = some (res, s)) :
    ThoroughBut c id r.stack s := by
  have henter : Step (c.context docs) r (r.takeUp id e) := .enter id e he hopen hfree
  have hs₁ : SteadySound docs c.view (r.takeUp id e) :=
    Steps.steadySound (c.bounded docs).steady hs (.single henter)
  have hr₁ : Thorough c (r.takeUp id e) := by
    intro i e' he' hr
    by_cases hi : i = id
    · exact .inl (hi ▸ List.mem_cons_self)
    · exact (hothers i e' hi he' hr).imp_left (List.mem_cons_of_mem id)
  have ht := requestAll_thorough hreq hkeep _ hs₁ (fun a ha => hpath.takeUp hs.faithful he ha) hr₁ h
  obtain ⟨hrun, -⟩ := requestAll_delivers hreq _ hs₁.toSound h
  obtain ⟨hstack, -⟩ := hrun.back_to_top
  intro i e' hi he' hr
  rcases ht i e' he' hr with hmem | hres
  · rw [hstack, List.mem_cons] at hmem
    exact .inl (hmem.resolve_left hi)
  · exact .inr hres

/-- An attempt to resolve an entry leaves it resolved, unless its name is not resolvable. -/
theorem Resolving.isResolved (hreq : Delivers (c.context docs) request)
    (hwalk : FailsAsWalked c docs request) (hs : SteadySound docs c.view r)
    (he : r.entries[id]? = some e) (hpath : LeadsTo c r e.requested)
    {res : Except ResolveError Unit} (h : Resolving docs request id e r res s) {e' : Entry}
    (he' : s.entries[id]? = some e') (hr : c.Resolvable e'.requested) : e'.isResolved = true := by
  obtain ⟨hrun, hprov⟩ := h.delivers hreq hs.toSound he
  obtain ⟨e₂, he₂, -, hsame, -⟩ := (hrun.steps.grows hs.toSound).entries he
  obtain rfl : e' = e₂ := Option.some.inj (he'.symm.trans he₂)
  have hfail := h.failure?_eq hreq hwalk hs he hpath
  rw [hsame] at hr
  rw [hr.firstDefect_eq_none hpath] at hfail
  obtain ⟨⟨⟩, rfl⟩ := failure?_eq_none_iff.mp hfail
  obtain ⟨e₃, he₃, -, hres⟩ := hprov rfl
  obtain rfl : e' = e₃ := Option.some.inj (he'.symm.trans he₃)
  exact hres

theorem Resolving.thorough (hreq : Delivers (c.context docs) request)
    (hwalk : FailsAsWalked c docs request) (hkeep : KeepsThorough c docs request)
    (hs : SteadySound docs c.view r) (he : r.entries[id]? = some e)
    (hpath : LeadsTo c r e.requested) (hothers : ThoroughBut c id r.stack r)
    {res : Except ResolveError Unit} (h : Resolving docs request id e r res s) :
    Thorough c s := by
  have hrest : ThoroughBut c id r.stack s := by
    cases h with
    | before => exact hothers
    | reentered => exact hothers
    | failed hopen hfree error t hall =>
      have ht := requestAll_thoroughBut hreq hkeep hs he hpath hopen hfree hothers hall
      exact ht
    | completed hopen hfree ancestors t hall =>
      have ht := requestAll_thoroughBut hreq hkeep hs he hpath hopen hfree hothers hall
      intro i e' hi he'
      rw [getElem?_complete, if_neg (Ne.symm hi)] at he'
      exact ht i e' hi he'
  obtain ⟨hrun, -⟩ := h.delivers hreq hs.toSound he
  intro i e' he' hr
  rw [hrun.stack]
  by_cases hi : i = id
  · subst hi
    exact .inr (h.isResolved hreq hwalk hs he hpath he' hr)
  · exact hrest i e' hi he' hr

end Nested

theorem requestWithin_thorough (c : Codebase) (docs : DocReader) :
    ∀ depth : Nat, KeepsThorough c docs (requestWithin (c.context docs) depth)
  | 0 => fun _ _ _ _ _ _ _ h => nomatch h
  | depth + 1 => by
    intro name r res s hs hpath hr h
    have hreq := requestWithin_delivers (c.context docs) depth
    have hwalk := requestWithin_failsAsWalked c docs depth
    have ih := requestWithin_thorough c docs depth
    cases requesting_of_requestWithin h with
    | found id e res _ hfound he hname run =>
      subst hname
      exact run.thorough hreq hwalk ih hs he hpath fun i e' _ => hr i e'
    | refused => exact hr
    | accepted v res _ hmiss hanswer run =>
      have haccept := accept_excursion hmiss hanswer
      have hs₁ := haccept.steps.steadySound (c.bounded docs).steady hs
      have hway := underWay_excursion hs.toSound haccept
      refine run.thorough hreq hwalk ih hs₁ (getElem?_accept_size r name v) (hpath.congr hway) ?_
      intro i e' hi he'
      rw [getElem?_accept, if_neg hi] at he'
      exact hr i e' he'

/-! ### The public operations -/

/-- Whatever comes of an operation, no entry of a resolvable name is left open. -/
def EndsThorough {α : Type} (c : Codebase) (o : Outcome α) : Prop :=
  ∀ ⦃res : Except ResolveError α⦄ ⦃s : Registry⦄, o = some (res, s) → Thorough c s

theorem EndsThorough.done {α : Type} (hr : Thorough c r) (res : Except ResolveError α) :
    EndsThorough c (some (res, r)) := by
  intro res' s h
  cases h
  exact hr

theorem EndsThorough.andThen {α β : Type} {o : Outcome α} {f : α → Registry → Outcome β}
    (ho : EndsThorough c o)
    (hf : ∀ a t, o = some (.ok a, t) → Thorough c t → EndsThorough c (f a t)) :
    EndsThorough c (o.andThen f) := by
  intro res s h
  rcases Outcome.andThen_eq_some h with ⟨error, ho', -⟩ | ⟨a, t, ho', h⟩
  · exact ho ho'
  · exact hf a t ho' (ho ho') h

theorem request_thorough (hs : SteadySound docs c.view r) (hidle : r.stack = [])
    (hr : Thorough c r) (name : String) : EndsThorough c (r.request (c.context docs) name) :=
  fun _ _ h => requestWithin_thorough c docs _ hs (leadsTo_of_idle hidle name) hr h

theorem resolve_thorough (hs : SteadySound docs c.view r) (hidle : r.stack = [])
    (hr : Thorough c r) (hid : id < r.entries.size) :
    EndsThorough c (r.resolve (c.context docs) id hid) :=
  fun _ _ h => (resolving_of_resolveWith h).thorough (requestWithin_delivers _ _)
    (requestWithin_failsAsWalked c docs _) (requestWithin_thorough c docs _) hs
    (Array.getElem?_eq_getElem hid) (leadsTo_of_idle hidle _) fun i e' _ => hr i e'

theorem resolveClass_thorough (hs : SteadySound docs c.view r) (hidle : r.stack = [])
    (hr : Thorough c r) (name : String) :
    EndsThorough c (r.resolveClass (c.context docs) name) := by
  refine (request_thorough hs hidle hr name).andThen fun id t hreq ht => ?_
  have hrun := request_excursion hs.toSound hreq
  have hst : SteadySound docs c.view t := hrun.steps.steadySound (c.bounded docs).steady hs
  split
  · exact (resolve_thorough hst (hrun.stack.trans hidle) ht _).andThen fun _ u _ hu => .done hu _
  · exact .done ht _

theorem document_thorough (scope : Scope) :
    ∀ (names : List String) {r : Registry}, SteadySound docs c.view r → r.stack = [] →
      Thorough c r → EndsThorough c (document (c.context docs) scope names r)
  | [], r, _, _, hr => .done hr _
  | name :: names, r, hs, hidle, hr => by
    rw [document]
    split
    · refine (request_thorough hs hidle hr name).andThen fun id t hreq ht => ?_
      have hrun := request_excursion hs.toSound hreq
      obtain ⟨e, he, -, hres⟩ := provides_of_request hs.toSound hreq
      have hst : SteadySound docs c.view (t.markRendered id) :=
        Steps.steadySound (c.bounded docs).steady hs (hrun.steps.tail (.render id e he hres))
      exact (document_thorough scope names hst (hrun.stack.trans hidle) ht).andThen
        fun _ u _ hu => .done hu _
    · exact document_thorough scope names hs hidle hr

theorem Op.perform_thorough (hs : SteadySound docs c.view r) (hidle : r.stack = [])
    (hr : Thorough c r) (op : Op) : EndsThorough c (op.perform (c.context docs) r) := by
  cases op with
  | request name =>
    exact (request_thorough hs hidle hr name).andThen fun _ _ _ ht => .done ht _
  | resolveClass name =>
    exact (resolveClass_thorough hs hidle hr name).andThen fun _ _ _ ht => .done ht _
  | resolve id =>
    rw [Op.perform]
    split
    · exact (resolve_thorough hs hidle hr _).andThen fun _ _ _ ht => .done ht _
    · exact .done hr _
  | document names scope =>
    exact (document_thorough scope names hs hidle hr).andThen fun _ _ _ ht => .done ht _

theorem play_thorough (ops : List Op) {answers : List (Except ResolveError Answer)}
    (hs : SteadySound docs c.view r) (hidle : r.stack = []) (hr : Thorough c r)
    (h : play (c.context docs) ops r = some (answers, s)) : Thorough c s := by
  induction ops generalizing r answers with
  | nil =>
    cases h
    exact hr
  | cons op ops ih =>
    obtain ⟨answer, t, rest, hop, hplay, -⟩ := play_cons_eq_some h
    obtain ⟨hsteps, hstack⟩ := op.perform_steps hs.toSound hop
    exact ih (hsteps.steadySound (c.bounded docs).steady hs) (hstack.trans hidle)
      (op.perform_thorough hs hidle hr hop) hplay

theorem Reachable.thorough (h : Reachable (c.context docs) shared r) : Thorough c r := by
  obtain ⟨ops, answers, hplay⟩ := h
  have hnew : SteadySound docs c.view { shared } := steadySound_of_empty rfl rfl rfl
  exact play_thorough ops hnew rfl (fun id e he => absurd he (by simp)) hplay

/-- With nothing under way, every entry of a resolvable name is resolved. -/
theorem Thorough.isResolved (h : Thorough c r) (hidle : r.stack = [])
    (he : r.entries[id]? = some e) (hr : c.Resolvable e.requested) : e.isResolved = true := by
  rcases h id e he hr with hmem | hres
  · rw [hidle] at hmem
    exact absurd hmem List.not_mem_nil
  · exact hres

/-- What is looked up under a resolvable name is resolved, if there is an entry at all. -/
theorem Thorough.get_resolved (h : Thorough c r) (hidle : r.stack = []) (hr : c.Resolvable name)
    (he : r.entries[id]? = some e) (hname : e.requested = name) :
    ∃ first e', r.get name = .ok (first, e') ∧ r.entries[first]? = some e' ∧ e'.requested = name ∧
      e'.isResolved = true := by
  cases hfirst : r.idOf? name with
  | none => exact absurd hname (idOf?_eq_none_iff.mp hfirst id e he)
  | some first =>
    obtain ⟨⟨e', he', hname'⟩, -⟩ := idOf?_eq_some_iff.mp hfirst
    refine ⟨first, e', ?_, he', hname', h.isResolved hidle he' (hname' ▸ hr)⟩
    rw [get, find?_eq_some_iff.mpr ⟨hfirst, he'⟩]

end ClassSurface.Registry
