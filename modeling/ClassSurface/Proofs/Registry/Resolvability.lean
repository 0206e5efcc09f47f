import ClassSurface.Proofs.Codebase.Reach
import ClassSurface.Proofs.Registry.Steady

/-! # Proofs.Registry.Resolvability — when a request succeeds, and how it fails

With a codebase for a source, the outcome of a request is the outcome of the plain walk
`Codebase.firstDefect`: neither what was requested before nor how entries are shared has a part in
it.

* `Sound.resolvable`: only resolvable names have resolved entries, so an entry that is found
  resolved stands for a part of the walk without defects.
* `requestWithin_failsAsWalked`: with requests under way, a request fails as the walk does that has
  come along the names under way.
* `exists_request`: after any history of operations, with nothing under way, it fails as the walk
  from its name does.
-/

namespace ClassSurface

open Relation

variable {c : Codebase} {docs : DocReader}

/-- How an operation failed, if it did. -/
def failure? {α : Type} : Except ResolveError α → Option ResolveError
  | .error error => some error
  | .ok _ => none

theorem failure?_eq_none_iff {α : Type} {res : Except ResolveError α} :
    failure? res = none ↔ ∃ a, res = .ok a := by
  cases res <;> simp [failure?]

@[simp] theorem failure?_map {α β : Type} (f : α → β) (res : Except ResolveError α) :
    failure? (res.map f) = failure? res := by
  cases res <;> rfl

/-! ### A codebase as a source -/

/-- What a registry works with when a codebase is its source. -/
def Codebase.context (c : Codebase) (docs : DocReader) : Context := ⟨c.source, docs⟩

theorem Codebase.view_eq_ok {n : String} {v : ClassView} (h : c.view n = .ok v) :
    ∃ d, c.find? n = some d ∧ v.name = n ∧ v.ancestors = d.ancestors := by
  rw [Codebase.view] at h
  split at h
  · cases h
  · rename_i d hd
    cases h
    exact ⟨d, hd, name_eq_of_find? hd, rfl⟩

theorem Codebase.view_eq_error {n : String} {error : SourceError} (h : c.view n = .error error) :
    c.find? n = none ∧ error = .unknownClass n := by
  rw [Codebase.view] at h
  split at h
  · rename_i hn
    cases h
    exact ⟨hn, rfl⟩
  · cases h

theorem Codebase.bounded (c : Codebase) (docs : DocReader) :
    Registry.Bounded (c.context docs) c.view c.names where
  steady := by
    intro query name
    show c.viewThrough ∅ name = c.view name
    simp [Codebase.viewThrough]
  mem_names := by
    intro n v h
    obtain ⟨d, hd, -⟩ := Codebase.view_eq_ok h
    exact Codebase.contains_iff_mem_names.mp (Codebase.contains_iff_find?.mpr ⟨d, hd⟩)
  depth := by
    show c.names.length < c.size + Std.TreeMap.size (∅ : Overlay) + 1
    rw [Codebase.names, List.length_map, Codebase.size]
    omega

namespace Registry

variable {r s : Registry} {id : ClassId} {e : Entry} {name : String}

/-! ### Resolved entries -/

/-- The ancestors that the view of an entry names are those of the class it was requested as. -/
theorem extends_iff_of_faithful (hf : Faithful c.view r) (he : r.entries[id]? = some e)
    {a : String} : c.Extends e.requested a ↔ a ∈ e.view.ancestors := by
  obtain ⟨d, hd, -, hanc⟩ := Codebase.view_eq_ok (hf he)
  rw [Codebase.extends_iff_of_find? hd, hanc]

/-- Only resolvable names have resolved entries. -/
theorem Sound.resolvable (hs : Sound docs r) (hf : Faithful c.view r)
    (he : r.entries[id]? = some e) (hres : e.isResolved = true) : c.Resolvable e.requested := by
  obtain ⟨rank, hrank⟩ := hs.ranked
  -- ancestors first, in the order of the ranks
  induction hk : rank id using Nat.strongRecOn generalizing id e with
  | _ k ih =>
    obtain ⟨d, hd, -⟩ := Codebase.view_eq_ok (hf he)
    refine Codebase.resolvable_of_ancestors (Codebase.contains_iff_find?.mpr ⟨d, hd⟩) fun a ha => ?_
    obtain ⟨i, hi, e', he', hname, hres'⟩ := exists_partner (hs.provides_ancestors he hres).flip
      ((extends_iff_of_faithful hf he).mp ha)
    exact hname ▸ ih (rank i) (hk ▸ hrank he i hi) he' hres' rfl

theorem name_eq_requested (hf : Faithful c.view r) (he : r.entries[id]? = some e) :
    e.name = e.requested := by
  obtain ⟨d, -, hname, -⟩ := Codebase.view_eq_ok (hf he)
  exact hname

/-- With a codebase for a source, an entry is under way exactly if its name is. -/
theorem isUnderWay_iff (hs : Sound docs r) (hf : Faithful c.view r) (he : r.entries[id]? = some e) :
    r.isUnderWay id e = true ↔ e.requested ∈ r.underWay := by
  refine ⟨fun h => ?_, isUnderWay_of_mem hs hf he⟩
  rw [isUnderWay, Bool.or_eq_true, Bool.and_eq_true, List.any_eq_true] at h
  rcases h with hid | ⟨-, other, hother, hany⟩
  · exact mem_namesOf.mpr ⟨id, by simpa using hid, e, he, rfl⟩
  · obtain ⟨o, ho, hname⟩ := (Option.any_eq_true _ _).mp hany
    have hname : o.name = e.name := by simpa using hname
    rw [name_eq_requested hf ho, name_eq_requested hf he] at hname
    exact mem_namesOf.mpr ⟨other, hother, o, ho, hname⟩

/-! ### Requests against the walk -/

/-- Every name under way has `name` among its ancestors. -/
def LeadsTo (c : Codebase) (r : Registry) (name : String) : Prop :=
  ∀ x ∈ r.underWay, TransGen c.Extends x name

theorem leadsTo_of_idle (hidle : r.stack = []) (name : String) : LeadsTo c r name := by
  intro x hx
  rw [underWay, hidle] at hx
  exact absurd hx List.not_mem_nil

theorem LeadsTo.congr (h : LeadsTo c r name) (hway : s.underWay = r.underWay) :
    LeadsTo c s name := by
  rw [LeadsTo, hway]
  exact h

/-- An excursion leaves the names under way as they were. -/
theorem underWay_excursion {ctx : Context} (hs : Sound ctx.docs r) (h : Excursion ctx r s) :
    s.underWay = r.underWay :=
  underWay_eq_of_grows hs (h.steps.grows hs) h.stack

theorem underWay_takeUp (he : r.entries[id]? = some e) :
    (r.takeUp id e).underWay = e.requested :: r.underWay :=
  namesOf_cons he r.stack

/-- What is under way below an entry, and the entry itself, lead to its ancestors. -/
theorem LeadsTo.takeUp (h : LeadsTo c r e.requested) (hf : Faithful c.view r)
    (he : r.entries[id]? = some e) {a : String} (ha : a ∈ e.view.ancestors) :
    LeadsTo c (r.takeUp id e) a := by
  have ha : c.Extends e.requested a := (extends_iff_of_faithful hf he).mpr ha
  intro x hx
  rw [underWay_takeUp he] at hx
  rcases List.mem_cons.mp hx with rfl | hx
  · exact .single ha
  · exact (h x hx).tail ha

/-- Requests fail as the walk does that has come along the names under way. -/
def FailsAsWalked (c : Codebase) (docs : DocReader)
    (request : String → Registry → Outcome ClassId) : Prop :=
  ∀ ⦃name : String⦄ ⦃r : Registry⦄ ⦃res : Except ResolveError ClassId⦄ ⦃s : Registry⦄,
    SteadySound docs c.view r → LeadsTo c r name → request name r = some (res, s) →
      failure? res = c.firstDefect r.underWay name

section Walk

variable {request : String → Registry → Outcome ClassId}

theorem requestAll_failure? (hreq : Delivers (c.context docs) request)
    (hwalk : FailsAsWalked c docs request) :
    ∀ (names : List String) {r : Registry} {res : Except ResolveError (List ClassId)}
      {s : Registry}, SteadySound docs c.view r → (∀ n ∈ names, LeadsTo c r n) →
      requestAll request names r = some (res, s) →
      failure? res = names.findSome? (c.firstDefect r.underWay)
  | [], r, res, s, _, _, h => by
    cases h
    rfl
  | name :: names, r, res, s, hs, hpath, h => by
    have hhead := hpath name List.mem_cons_self
    rcases requestAll_cons_eq_some h with ⟨error, hname, rfl⟩ | ⟨id, t, res', hname, hall, rfl⟩
    · rw [List.findSome?_cons, ← hwalk hs hhead hname]
      rfl
    · obtain ⟨hrun, -⟩ := hreq hs.toSound hname
      have ht : SteadySound docs c.view t := hrun.steps.steadySound (c.bounded docs).steady hs
      have hway : t.underWay = r.underWay := underWay_excursion hs.toSound hrun
      have hrest := requestAll_failure? hreq hwalk names ht
        (fun n hn => (hpath n (List.mem_cons_of_mem _ hn)).congr hway) hall
      rw [List.findSome?_cons, ← hwalk hs hhead hname, failure?_map, hrest, hway]
      rfl

/-- The ancestors of an entry are requested as the walk goes on with the entry's name at the end of
its path. -/
theorem requestAll_takeUp_failure? (hreq : Delivers (c.context docs) request)
    (hwalk : FailsAsWalked c docs request) (hs : SteadySound docs c.view r)
    (he : r.entries[id]? = some e) (hpath : LeadsTo c r e.requested)
    (hopen : e.isResolved = false) (hfree : r.isUnderWay id e = false)
    {res : Except ResolveError (List ClassId)}
    (h : requestAll request e.view.ancestors (r.takeUp id e) = some (res, s)) :
    failure? res = c.firstDefect r.underWay e.requested := by
  obtain ⟨d, hd, -, hanc⟩ := Codebase.view_eq_ok (hs.faithful he)
  have henter : Step (c.context docs) r (r.takeUp id e) := .enter id e he hopen hfree
  have hs₁ : SteadySound docs c.view (r.takeUp id e) :=
    Steps.steadySound (c.bounded docs).steady hs (.single henter)
  have hnew : e.requested ∉ r.underWay := by
    intro hmem
    rw [(isUnderWay_iff hs.toSound hs.faithful he).mpr hmem] at hfree
    cases hfree
  rw [Codebase.firstDefect_of_not_mem hd hnew, ← hanc, ← underWay_takeUp he]
  exact requestAll_failure? hreq hwalk _ hs₁ (fun a ha => hpath.takeUp hs.faithful he ha) h

/-- Whether an entry is resolved, under way or taken up, the outcome is that of the walk. -/
theorem Resolving.failure?_eq (hreq : Delivers (c.context docs) request)
    (hwalk : FailsAsWalked c docs request) (hs : SteadySound docs c.view r)
    (he : r.entries[id]? = some e) (hpath : LeadsTo c r e.requested)
    {res : Except ResolveError Unit} (h : Resolving docs request id e r res s) :
    failure? res = c.firstDefect r.underWay e.requested := by
  cases h with
  | before hres =>
    rw [(hs.resolvable hs.faithful he hres).firstDefect_eq_none hpath]
    rfl
  | reentered hopen hway =>
    obtain ⟨d, hd, -⟩ := Codebase.view_eq_ok (hs.faithful he)
    rw [Codebase.firstDefect_of_mem hd ((isUnderWay_iff hs.toSound hs.faithful he).mp hway),
      name_eq_requested hs.faithful he]
    rfl
  | failed hopen hfree error t hall =>
    exact requestAll_takeUp_failure? hreq hwalk hs he hpath hopen hfree hall
  | completed hopen hfree ancestors t hall =>
    exact requestAll_takeUp_failure? hreq hwalk hs he hpath hopen hfree hall

end Walk

/-- Requests fail as the walk does, however deep they may nest. -/
theorem requestWithin_failsAsWalked (c : Codebase) (docs : DocReader) :
    ∀ depth : Nat, FailsAsWalked c docs (requestWithin (c.context docs) depth)
  | 0 => fun _ _ _ _ _ _ h => nomatch h
  | depth + 1 => by
    intro name r res s hs hpath h
    have hreq := requestWithin_delivers (c.context docs) depth
    have ih := requestWithin_failsAsWalked c docs depth
    cases requesting_of_requestWithin h with
    | found id e res _ hfound he hname run =>
      subst hname
      rw [failure?_map]
      exact run.failure?_eq hreq ih hs he hpath
    | refused error hmiss hanswer =>
      rw [(c.bounded docs).steady] at hanswer
      obtain ⟨hnone, rfl⟩ := Codebase.view_eq_error hanswer
      rw [Codebase.firstDefect_of_find?_eq_none hnone]
      rfl
    | accepted v res _ hmiss hanswer run =>
      have haccept := accept_excursion hmiss hanswer
      have hs₁ := haccept.steps.steadySound (c.bounded docs).steady hs
      have hway := underWay_excursion hs.toSound haccept
      rw [failure?_map, ← hway]
      exact run.failure?_eq hreq ih hs₁ (getElem?_accept_size r name v) (hpath.congr hway)

/-- With nothing under way, a request fails as the walk from its name does. -/
theorem request_failure? (hs : SteadySound docs c.view r) (hidle : r.stack = [])
    {res : Except ResolveError ClassId} (h : r.request (c.context docs) name = some (res, s)) :
    failure? res = c.firstDefect [] name := by
  have hway : r.underWay = [] := by rw [underWay, hidle]; rfl
  rw [← hway]
  exact requestWithin_failsAsWalked c docs _ hs (leadsTo_of_idle hidle name) h

/-- After any operations a request comes to an end, and fails as the walk from its name does. -/
theorem exists_request (c : Codebase) (docs : DocReader) (shared : Bool) (ops : List Op)
    (name : String) :
    ∃ answers r res s, play (c.context docs) ops { shared } = some (answers, r) ∧
      r.request (c.context docs) name = some (res, s) ∧ failure? res = c.firstDefect [] name := by
  have hb := c.bounded docs
  have hnew : SteadySound docs c.view { shared } := steadySound_of_empty rfl rfl rfl
  obtain ⟨answers, r, hplay⟩ := exists_play_eq_some hb ops hnew
  have hreach : Reachable (c.context docs) shared r := ⟨ops, answers, hplay⟩
  have hs : SteadySound docs c.view r := hreach.steadySound hb
  obtain ⟨⟨res, s⟩, hreq⟩ := Option.isSome_iff_exists.mp (request_isSome hb hs name)
  exact ⟨answers, r, res, s, hplay, hreq, request_failure? hs hreach.stack_eq_nil hreq⟩

/-- **Success criterion**: whatever operations came before, and whether they failed or not, a
request succeeds exactly on resolvable names, and fails at the first defect that a plain walk from
the name meets. -/
theorem request_conforms (c : Codebase) (docs : DocReader) (shared : Bool) (ops : List Op)
    (name : String) :
    ∃ answers r res s, play (c.context docs) ops { shared } = some (answers, r) ∧
      r.request (c.context docs) name = some (res, s) ∧
      ((∃ id, res = .ok id) ↔ c.Resolvable name) ∧
      ∀ error, res = .error error ↔ c.firstDefect [] name = some error := by
  obtain ⟨answers, r, res, s, hplay, hreq, hfail⟩ := exists_request c docs shared ops name
  refine ⟨answers, r, res, s, hplay, hreq, ?_, fun error => ?_⟩
  · rw [← failure?_eq_none_iff, hfail, Codebase.firstDefect_eq_none_iff]
    simp
  · rw [← hfail]
    cases res <;> simp [failure?]

end Registry

end ClassSurface
