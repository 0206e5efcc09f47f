import ClassSurface.Proofs.Registry.WorkCounts

/-! # Proofs.Registry.Repetition — what is resolved need not be resolved again

A request that succeeds leaves a resolved entry, and to resolve a resolved entry is to do nothing.
So a registry may insist, and resolve once more whatever it was just given; `Op.insistently` does so
at every request, nested ones included.

* `Op.insistently_eq`: insisting makes no difference, whatever the source answers.
* `Op.perform_of_provided`: where entries are shared, the success of one request closes over all
  that its class reaches, and whatever is aimed there afterwards leaves the registry as it is.
-/

namespace ClassSurface.Registry

variable {ctx : Context} {docs : DocReader} {r s : Registry} {id : ClassId} {e : Entry}
  {name : String}

/-! ### Insisting -/

/-- Requests a class, and then resolves the entry that is given for it. Both leave the requests
nested in them to `nested`. -/
def insist (ctx : Context) (nested : String → Registry → Outcome ClassId) (name : String)
    (r : Registry) : Outcome ClassId :=
  (requestBy ctx nested name r).andThen fun id s =>
    match s.entries[id]? with
    | none => some (.ok id, s)
    | some e => (resolveWith ctx.docs nested id e s).andThen fun _ t => some (.ok id, t)

/-- Requests that insist, and so do the requests nested in them and in what they resolve. -/
def insistentWithin (ctx : Context) : Nat → String → Registry → Outcome ClassId
  | 0, _, _ => none
  | depth + 1, name, r => insist ctx (insistentWithin ctx depth) name r

/-- A request that does not insist itself, while those nested in it do. -/
def obtainWithin (ctx : Context) : Nat → String → Registry → Outcome ClassId
  | 0, _, _ => none
  | depth + 1, name, r => requestBy ctx (insistentWithin ctx depth) name r

/-- A document that insists on each of its classes. -/
def insistentDocument (ctx : Context) (scope : Scope) : List String → Registry → Outcome String
  | [], r => some (.ok "", r)
  | name :: names, r =>
    if scope.contains name then
      (insistentWithin ctx ctx.source.depth name r).andThen fun id r =>
        (insistentDocument ctx scope names (r.markRendered id)).andThen fun rest s =>
          some (.ok (r.textOf id ++ "\n" ++ rest), s)
    else insistentDocument ctx scope names r

/-- Performs an operation, insisting on each request on the way. -/
def Op.insistently (ctx : Context) : Op → Registry → Outcome Answer
  | request name, r =>
    (obtainWithin ctx ctx.source.depth name r).andThen fun id s => some (.ok (.entry id), s)
  | resolveClass name, r =>
    (insistentWithin ctx ctx.source.depth name r).andThen fun id s =>
      some (.ok (.entry id), s)
  | resolve id, r =>
    match r.entries[id]? with
    | none => some (.ok .noEntry, r)
    | some e =>
      (resolveWith ctx.docs (insistentWithin ctx ctx.source.depth) id e r).andThen
        fun _ s => some (.ok .done, s)
  | document names scope, r =>
    (insistentDocument ctx scope names r).andThen fun text s => some (.ok (.text text), s)

/-! ### Insisting makes no difference -/

section Agreement

variable {request request' : String → Registry → Outcome ClassId}
  (hreq : Delivers ctx request)
  (hagree : ∀ (name : String) {r : Registry}, Sound ctx.docs r → request' name r = request name r)
include hreq hagree

theorem requestAll_eq :
    ∀ (names : List String) {r : Registry}, Sound ctx.docs r →
      requestAll request' names r = requestAll request names r
  | [], _, _ => rfl
  | name :: names, r, hs => by
    rw [requestAll, requestAll, hagree name hs]
    rcases hname : request name r with _ | ⟨error | id, t⟩
    · rfl
    · rfl
    · rw [Outcome.andThen_ok, Outcome.andThen_ok,
        requestAll_eq names ((hreq hs hname).1.steps.sound hs)]

theorem resolveWith_eq (hs : Sound ctx.docs r) (he : r.entries[id]? = some e) :
    resolveWith ctx.docs request' id e r = resolveWith ctx.docs request id e r := by
  rw [resolveWith, resolveWith]
  split
  · rfl
  · rename_i hopen
    split
    · rfl
    · rename_i hfree
      have henter : Step ctx r (r.takeUp id e) :=
        .enter id e he (by simpa using hopen) (by simpa using hfree)
      rw [requestAll_eq hreq hagree _ (henter.sound hs)]

theorem requestBy_eq (hs : Sound ctx.docs r) (name : String) :
    requestBy ctx request' name r = requestBy ctx request name r := by
  rw [requestBy, requestBy]
  split
  · rename_i id e hfound
    obtain ⟨-, he⟩ := find?_eq_some_iff.mp (find?_of_reusable? hfound)
    rw [resolveWith_eq hreq hagree hs he]
  · rename_i hmiss
    split
    · rfl
    · rename_i view hanswer
      rw [resolveWith_eq hreq hagree ((accept_excursion hmiss hanswer).steps.sound hs)
        (getElem?_accept_size r name view)]

end Agreement

/-- Requests may insist, at any depth: what is given for a request is resolved, so to resolve it
once more changes nothing. -/
theorem insistentWithin_eq (ctx : Context) :
    ∀ (depth : Nat) (name : String) {r : Registry}, Sound ctx.docs r →
      insistentWithin ctx depth name r = requestWithin ctx depth name r
  | 0, _, _, _ => rfl
  | depth + 1, name, r, hs => by
    have hreq := requestWithin_delivers ctx depth
    rw [insistentWithin, insist, requestBy_eq hreq (insistentWithin_eq ctx depth) hs,
      ← requestWithin_succ]
    rcases hname : requestWithin ctx (depth + 1) name r with _ | ⟨error | id, t⟩
    · rfl
    · rfl
    · obtain ⟨e, he, -, hres⟩ := (requestWithin_delivers ctx (depth + 1) hs hname).2 id rfl
      rw [Outcome.andThen_ok, he]
      show Outcome.andThen (resolveWith ctx.docs (insistentWithin ctx depth) id e t) _ = _
      rw [resolveWith_of_resolved ctx.docs _ id hres t, Outcome.andThen_ok]

theorem obtainWithin_eq (ctx : Context) (depth : Nat) (name : String) (hs : Sound ctx.docs r) :
    obtainWithin ctx depth name r = requestWithin ctx depth name r := by
  cases depth with
  | zero => rfl
  | succ depth =>
    exact requestBy_eq (requestWithin_delivers ctx depth) (insistentWithin_eq ctx depth) hs name

/-- A public request may be insisted on as well. -/
theorem insistentWithin_eq_request (hs : Sound ctx.docs r) (name : String) :
    insistentWithin ctx ctx.source.depth name r = r.request ctx name :=
  insistentWithin_eq ctx _ name hs

theorem insistentDocument_eq (scope : Scope) :
    ∀ (names : List String) {r : Registry}, Sound ctx.docs r →
      insistentDocument ctx scope names r = document ctx scope names r
  | [], _, _ => rfl
  | name :: names, r, hs => by
    rw [insistentDocument, document]
    split
    · rw [insistentWithin_eq_request hs]
      rcases hreq : r.request ctx name with _ | ⟨error | id, t⟩
      · rfl
      · rfl
      · obtain ⟨e, he, -, hres⟩ := provides_of_request hs hreq
        have ht : Sound ctx.docs (t.markRendered id) :=
          (Step.render id e he hres).sound ((request_excursion hs hreq).steps.sound hs)
        rw [Outcome.andThen_ok, Outcome.andThen_ok, insistentDocument_eq scope names ht]
    · exact insistentDocument_eq scope names hs

/-- A registry that insists does what a registry does that does not. -/
theorem Op.insistently_eq (hs : Sound ctx.docs r) (op : Op) :
    op.insistently ctx r = op.perform ctx r := by
  cases op with
  | request name =>
    rw [Op.insistently, Op.perform, obtainWithin_eq ctx _ name hs, Registry.request]
  | resolveClass name =>
    rw [Op.insistently, Op.perform, insistentWithin_eq_request hs, resolveClass_eq hs]
  | resolve id =>
    rw [Op.insistently, Op.perform]
    by_cases hid : id < r.entries.size
    · have he : r.entries[id]? = some r.entries[id] := Array.getElem?_eq_getElem hid
      rw [dif_pos hid, he]
      show Outcome.andThen (resolveWith ctx.docs _ id r.entries[id] r) _ = _
      rw [resolveWith_eq (requestWithin_delivers ctx ctx.source.depth)
        (fun name _ ht => insistentWithin_eq_request ht name) hs he]
      rfl
    · rw [dif_neg hid, Array.getElem?_eq_none (Nat.not_lt.mp hid)]
  | document names scope => rw [Op.insistently, Op.perform, insistentDocument_eq scope names hs]

/-! ### Aiming at what is resolved -/

/-- The operation is aimed at a class that `name` reaches. -/
def Op.AimsAbove (c : Codebase) (r : Registry) (name : String) : Op → Prop
  | request n => c.Reaches name n
  | resolveClass n => c.Reaches name n
  | resolve id => ∃ n, c.Reaches name n ∧ r.idOf? n = some id
  | document _ _ => False

section Shared

variable {c : Codebase} (hs : SteadySound docs c.view r) (hshared : r.shared = true)
include hs hshared

/-- The entry that provides a class is found for it, resolved. -/
theorem SteadySound.request_of_provides (h : r.Provides id name) :
    r.request (c.context docs) name = some (.ok id, r) := by
  obtain ⟨e, he, hname, hres⟩ := h
  have hfound : r.reusable? name = some (id, e) := by
    rw [reusable?, if_pos hshared]
    exact find?_eq_some_iff.mpr ⟨(hs.idOf?_eq_some_iff hshared).mpr ⟨e, he, hname⟩, he⟩
  show requestBy (c.context docs) (requestWithin (c.context docs) _) name r = _
  rw [requestBy, hfound]
  show Outcome.andThen (resolveWith docs _ id e r) _ = _
  rw [resolveWith_of_resolved docs _ id hres, Outcome.andThen_ok]

/-- Whatever is aimed at what a provided class reaches succeeds, and leaves the registry as it
is. -/
theorem Op.perform_of_provided (hname : ∃ id, r.Provides id name) {op : Op}
    (haim : op.AimsAbove c r name) :
    ∃ answer ≠ Answer.noEntry, op.perform (c.context docs) r = some (.ok answer, r) := by
  cases op with
  | request n =>
    obtain ⟨id, hid⟩ := hs.provides_of_reaches hname haim
    exact ⟨.entry id, by simp, by
      rw [Op.perform, hs.request_of_provides hshared hid, Outcome.andThen_ok]⟩
  | resolveClass n =>
    obtain ⟨id, hid⟩ := hs.provides_of_reaches hname haim
    exact ⟨.entry id, by simp, by
      rw [Op.perform, resolveClass_eq hs.toSound, hs.request_of_provides hshared hid,
        Outcome.andThen_ok]⟩
  | resolve id =>
    obtain ⟨n, hreach, hindex⟩ := haim
    obtain ⟨id', e, he, hn, hres⟩ := hs.provides_of_reaches hname hreach
    obtain rfl : id = id' := Option.some.inj
      (hindex.symm.trans ((hs.idOf?_eq_some_iff hshared).mpr ⟨e, he, hn⟩))
    obtain ⟨hid, rfl⟩ := Array.getElem?_eq_some_iff.mp he
    exact ⟨.done, by simp, by
      rw [Op.perform, dif_pos hid, resolve_of_resolved _ hid hres, Outcome.andThen_ok]⟩
  | document => exact absurd haim id

theorem play_of_provided (hname : ∃ id, r.Provides id name) (ops : List Op)
    (haim : ∀ op ∈ ops, op.AimsAbove c r name) :
    ∃ answers, play (c.context docs) ops r = some (answers, r) ∧
      ∀ answer ∈ answers, ∃ a ≠ Answer.noEntry, answer = .ok a := by
  induction ops with
  | nil => exact ⟨[], rfl, by simp⟩
  | cons op ops ih =>
    obtain ⟨hop, hops⟩ := List.forall_mem_cons.mp haim
    obtain ⟨answer, hentry, hop⟩ := op.perform_of_provided hs hshared hname hop
    obtain ⟨answers, hplay, hall⟩ := ih hops
    refine ⟨.ok answer :: answers, ?_, List.forall_mem_cons.mpr ⟨⟨answer, hentry, rfl⟩, hall⟩⟩
    rw [play, hop]
    simp [hplay]

end Shared

theorem get_eq_ok_iff :
    r.get name = .ok (id, e) ↔ r.idOf? name = some id ∧ r.entries[id]? = some e := by
  rw [← find?_eq_some_iff, get]
  cases r.find? name <;> simp

/-- **Repetition is free**: in a shared registry over a codebase, whatever was done with it before,
a successful request leaves its class resolved; and once a class is resolved, any operations aimed
at it or at what it reaches succeed and leave the registry exactly as it is, so that nothing is
asked and nothing reported. With any source and in both ways of sharing entries, resolving a
resolved entry does nothing, a request that succeeds gives a resolved entry, and so every operation
is the same if each entry that is given, in nested requests too, is resolved once more. -/
theorem repetition_free (c : Codebase) (docs : DocReader) :
    (∀ ops : List Op, ∃ answers r, play (c.context docs) ops { shared := true } = some (answers, r) ∧
      (∀ name id s, r.request (c.context docs) name = some (.ok id, s) →
        ∃ e, s.get name = .ok (id, e) ∧ s.stateOf id e = .resolved) ∧
      ∀ name id e, r.get name = .ok (id, e) → r.stateOf id e = .resolved →
        ∀ more : List Op, (∀ op ∈ more, op.AimsAbove c r name) →
          ∃ again, play (c.context docs) more r = some (again, r) ∧
            ∀ answer ∈ again, ∃ a ≠ Answer.noEntry, answer = .ok a) ∧
    ∀ (ctx : Context) (shared : Bool) (r : Registry), Reachable ctx shared r →
      (∀ (id : ClassId) (hid : id < r.entries.size), r.stateOf id r.entries[id] = .resolved →
        r.resolve ctx id hid = some (.ok (), r)) ∧
      (∀ name id s, r.request ctx name = some (.ok id, s) →
        ∃ e, s.entries[id]? = some e ∧ s.stateOf id e = .resolved) ∧
      ∀ op : Op, op.insistently ctx r = op.perform ctx r := by
  constructor
  · intro ops
    have hb := c.bounded docs
    have hnew : SteadySound docs c.view { shared := true } := steadySound_of_empty rfl rfl rfl
    obtain ⟨answers, r, hplay⟩ := exists_play_eq_some hb ops hnew
    have hreach : Reachable (c.context docs) true r := ⟨ops, answers, hplay⟩
    have hs : SteadySound docs c.view r := hreach.steadySound hb
    have hshared : r.shared = true := (hreach.steps.grows hnew.toSound).shared
    refine ⟨answers, r, hplay, fun name id s hreq => ?_, fun name id e hget hres more haim => ?_⟩
    · have hrun := request_excursion hs.toSound hreq
      have hs' := hrun.steps.sound hs.toSound
      obtain ⟨e, he, hname, hres⟩ := provides_of_request hs.toSound hreq
      have hidx : s.idOf? name = some id := (hs'.idOf?_eq_some_iff
        ((hrun.steps.grows hs.toSound).shared.trans hshared)).mpr ⟨e, he, hname⟩
      exact ⟨e, get_eq_ok_iff.mpr ⟨hidx, he⟩, stateOf_eq_resolved_iff.mpr hres⟩
    · obtain ⟨hidx, he⟩ := get_eq_ok_iff.mp hget
      obtain ⟨e', he', hname⟩ := (hs.idOf?_eq_some_iff hshared).mp hidx
      obtain rfl : e = e' := Option.some.inj (he.symm.trans he')
      have hprov : r.Provides id name := ⟨e, he, hname, stateOf_eq_resolved_iff.mp hres⟩
      exact play_of_provided hs hshared ⟨id, hprov⟩ more haim
  · intro ctx shared r hreach
    refine ⟨fun id hid hres => ?_, fun name id s hreq => ?_, Op.insistently_eq hreach.sound⟩
    · exact resolve_of_resolved ctx hid (stateOf_eq_resolved_iff.mp hres)
    · obtain ⟨e, he, -, hres⟩ := provides_of_request hreach.sound hreq
      exact ⟨e, he, stateOf_eq_resolved_iff.mpr hres⟩

/-- Three queries resolve a class with its parent and the interface of both; all further operations
on any of the three make none and leave no trace. -/
theorem repetition_free_diamond : ∃ answers r again,
    play (diamond.context .rejecting) [.request "Leaf"] { shared := true } = some (answers, r) ∧
    r.queries = 3 ∧ r.log.size = 9 ∧
    play (diamond.context .rejecting) [.request "Named", .resolveClass "Base", .resolve 2,
      .request "Leaf"] r = some (again, r) ∧
    ∀ answer ∈ again, ∃ a ≠ Answer.noEntry, answer = .ok a := by
  have hstate : (play (diamond.context .rejecting) [.request "Leaf"] { shared := true }).map
      (fun p => (p.2.queries, p.2.log.size, p.2.idOf? "Named",
        (p.2.get "Leaf").toOption.map fun found => (found.1, p.2.stateOf found.1 found.2))) =
      some (3, 9, some 2, some (0, .resolved)) := by
    decide +kernel
  have hbase : diamond.Reaches "Leaf" "Base" :=
    .single (show "Base" ∈ diamond.ancestorsOf "Leaf" by decide +kernel)
  have hnamed : diamond.Reaches "Leaf" "Named" :=
    .single (show "Named" ∈ diamond.ancestorsOf "Leaf" by decide +kernel)
  obtain ⟨answers, r, hplay, -, hfree⟩ := (repetition_free diamond .rejecting).1 [.request "Leaf"]
  rw [hplay] at hstate
  simp only [Option.map_some, Option.some.injEq, Prod.mk.injEq] at hstate
  obtain ⟨hqueries, hlog, hidx, hget⟩ := hstate
  cases hfound : r.get "Leaf" with
  | error error =>
    rw [hfound] at hget
    cases hget
  | ok found =>
    rw [hfound] at hget
    obtain ⟨-, hres⟩ := Prod.mk.inj (Option.some.inj hget)
    obtain ⟨again, hagain, hall⟩ := hfree "Leaf" found.1 found.2 hfound hres [.request "Named",
      .resolveClass "Base", .resolve 2, .request "Leaf"] (by
        rw [List.forall_mem_cons, List.forall_mem_cons, List.forall_mem_cons,
          List.forall_mem_singleton]
        exact ⟨hnamed, hbase, ⟨"Named", hnamed, hidx⟩, .refl⟩)
    exact ⟨answers, r, again, hplay, hqueries, hlog, hagain, hall⟩

end ClassSurface.Registry
