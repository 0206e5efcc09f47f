import ClassSurface.Proofs.Codebase.Locality
import ClassSurface.Proofs.Registry.Termination
import ClassSurface.Proofs.Registry.WorkCounts

/-! # Proofs.Registry.Locality — a request depends on what its class reaches

Two new registries over codebases that agree above a name are asked for that name. They put the same
questions, since these are about names that it reaches, and so take the same course to the last
event, also when they fail.

* `HoldsOnly`: what holds of a registry that was only ever asked for what a name reaches.
* `requestWithin_same`: on such registries requests do not tell the codebases apart.
* `request_local`: a class is viewed and requested alike in codebases that agree above it.
-/

namespace ClassSurface.Registry

variable {c c' : Codebase} {docs : DocReader} {r s : Registry} {id : ClassId} {e : Entry}
  {n name : String}

/-- The registry holds classes that `n` reaches, and no others. -/
structure HoldsOnly (c : Codebase) (docs : DocReader) (n : String) (r : Registry) : Prop
    extends SteadySound docs c.view r where
  reached : ∀ m ∈ r.names, c.Reaches n m

namespace HoldsOnly

theorem request (h : HoldsOnly c docs n r) (hname : c.Reaches n name) {depth : Nat}
    {res : Except ResolveError ClassId}
    (hreq : requestWithin (c.context docs) depth name r = some (res, s)) :
    HoldsOnly c docs n s := by
  have hrun := (requestWithin_delivers (c.context docs) depth h.toSound hreq).1
  refine ⟨hrun.steps.steadySound (c.bounded docs).steady h.toSteadySound, fun m hm => ?_⟩
  rcases (requestWithin_fetches c docs depth h.toSteadySound hreq).reached m hm with
    hm | ⟨root, hroot, hreach⟩
  · exact h.reached m hm
  · rw [List.mem_singleton.mp hroot] at hreach
    exact hname.trans hreach

theorem accept (h : HoldsOnly c docs n r) (hname : c.Reaches n name) {v : ClassView}
    (hmiss : r.reusable? name = none)
    (hanswer : (c.context docs).source.answer r.queries name = .ok v) :
    HoldsOnly c docs n (r.accept name v) := by
  refine ⟨(accept_excursion hmiss hanswer).steps.steadySound (c.bounded docs).steady
    h.toSteadySound, fun m hm => ?_⟩
  rw [names_accept, List.mem_append, List.mem_singleton] at hm
  rcases hm with hm | rfl
  · exact h.reached m hm
  · exact hname

theorem takeUp (h : HoldsOnly c docs n r) (he : r.entries[id]? = some e)
    (hopen : e.isResolved = false) (hfree : r.isUnderWay id e = false) :
    HoldsOnly c docs n (r.takeUp id e) := by
  have henter : Step (c.context docs) r (r.takeUp id e) := .enter id e he hopen hfree
  exact ⟨Steps.steadySound (c.bounded docs).steady h.toSteadySound (.single henter), h.reached⟩

/-- The ancestors of an entry are reached as well. -/
theorem reaches_ancestor (h : HoldsOnly c docs n r) (he : r.entries[id]? = some e) {a : String}
    (ha : a ∈ e.view.ancestors) : c.Reaches n a :=
  (h.reached _ (mem_names_iff.mpr ⟨id, e, he, rfl⟩)).tail
    ((extends_iff_of_faithful h.faithful he).mpr ha)

end HoldsOnly

/-! ### The same course -/

/-- Both ways of requesting classes come to the same, for what `n` reaches. -/
def SameRequests (c : Codebase) (docs : DocReader) (n : String)
    (request request' : String → Registry → Outcome ClassId) : Prop :=
  ∀ ⦃name : String⦄ ⦃r : Registry⦄, c.Reaches n name → HoldsOnly c docs n r →
    request' name r = request name r

section Same

variable {depth : Nat} {request' : String → Registry → Outcome ClassId}
  (hsame : SameRequests c docs n (requestWithin (c.context docs) depth) request')
include hsame

theorem requestAll_same :
    ∀ (names : List String) {r : Registry}, (∀ m ∈ names, c.Reaches n m) → HoldsOnly c docs n r →
      requestAll request' names r = requestAll (requestWithin (c.context docs) depth) names r
  | [], _, _, _ => rfl
  | name :: names, r, hnames, hr => by
    have hname := hnames name List.mem_cons_self
    rw [requestAll, requestAll, hsame hname hr]
    rcases hreq : requestWithin (c.context docs) depth name r with _ | ⟨error | id, t⟩
    · rfl
    · rfl
    · rw [Outcome.andThen_ok, Outcome.andThen_ok,
        requestAll_same names (fun m hm => hnames m (List.mem_cons_of_mem _ hm))
          (hr.request hname hreq)]

theorem resolveWith_same (hr : HoldsOnly c docs n r) (he : r.entries[id]? = some e) :
    resolveWith docs request' id e r =
      resolveWith docs (requestWithin (c.context docs) depth) id e r := by
  rw [resolveWith, resolveWith]
  split
  · rfl
  · rename_i hopen
    split
    · rfl
    · rename_i hfree
      rw [requestAll_same hsame e.view.ancestors (fun a ha => hr.reaches_ancestor he ha)
        (hr.takeUp he (by simpa using hopen) (by simpa using hfree))]

end Same

/-- Requests for what a name reaches do not tell codebases apart that agree above the name. -/
theorem requestWithin_same (hview : ∀ m, c.Reaches n m → c'.view m = c.view m) :
    ∀ depth : Nat, SameRequests c docs n (requestWithin (c.context docs) depth)
      (requestWithin (c'.context docs) depth)
  | 0 => fun _ _ _ _ => rfl
  | depth + 1 => by
    intro name r hname hr
    have ih : SameRequests c docs n (requestWithin (c.context docs) depth)
        (requestWithin (c'.context docs) depth) := requestWithin_same hview depth
    have hanswer : (c'.context docs).source.answer r.queries name =
        (c.context docs).source.answer r.queries name := by
      rw [(c'.bounded docs).steady, (c.bounded docs).steady, hview name hname]
    rw [requestWithin, requestWithin, hanswer]
    split
    · rename_i id e hfound
      obtain ⟨-, he⟩ := find?_eq_some_iff.mp (find?_of_reusable? hfound)
      exact congrArg (Outcome.andThen · _) (resolveWith_same ih hr he)
    · rename_i hmiss
      split
      · rfl
      · rename_i v hv
        exact congrArg (Outcome.andThen · _)
          (resolveWith_same ih (hr.accept hname hmiss hv) (getElem?_accept_size r name v))

/-- **Locality**: let two codebases, in whatever order their classes were inserted, have the same
declaration, or none, for a name and for everything that it reaches in the first of them. Then the
class looks the same in both, and new registries over both come to an end with the same result, and
hold the same entries, queries and log. -/
theorem request_local (inserted inserted' : List ClassDecl) (n : String)
    (h : Codebase.SameAbove (.ofList inserted) (.ofList inserted') n) (docs : DocReader)
    (shared : Bool) :
    (Codebase.ofList inserted').view n = (Codebase.ofList inserted).view n ∧
      ∃ res s, ({ shared } : Registry).request ((Codebase.ofList inserted).context docs) n =
          some (res, s) ∧
        ({ shared } : Registry).request ((Codebase.ofList inserted').context docs) n =
          some (res, s) := by
  set c := Codebase.ofList inserted
  set c' := Codebase.ofList inserted'
  have hview : ∀ m, c.Reaches n m → c'.view m = c.view m := fun m hm =>
    (h.of_reaches hm).view_eq (Codebase.nodup_names_ofList _) (Codebase.nodup_names_ofList _)
  have hnew : ∀ c : Codebase, SteadySound docs c.view { shared } :=
    fun _ => steadySound_of_empty rfl rfl rfl
  obtain ⟨⟨res, s⟩, hreq⟩ :=
    Option.isSome_iff_exists.mp (request_isSome (c.bounded docs) (hnew c) n)
  obtain ⟨⟨res', s'⟩, hreq'⟩ :=
    Option.isSome_iff_exists.mp (request_isSome (c'.bounded docs) (hnew c') n)
  -- with room for both, the requests nest as deep as they need to
  have hdeep := requestWithin_within (c.context docs)
    (Nat.le_max_left (c.context docs).source.depth (c'.context docs).source.depth) n _ hreq
  have hdeep' := requestWithin_within (c'.context docs)
    (Nat.le_max_right (c.context docs).source.depth (c'.context docs).source.depth) n _ hreq'
  have hempty : HoldsOnly c docs n { shared } := ⟨hnew c, fun m hm => absurd hm List.not_mem_nil⟩
  rw [requestWithin_same hview _ .refl hempty, hdeep] at hdeep'
  cases hdeep'
  exact ⟨hview n .refl, res, s, hreq, hreq'⟩

/-- A class with a parent that has an interface, between declarations that have nothing to do with
it: one is replaced later, one extends itself and one an undeclared class. -/
def crowded : List ClassDecl :=
  [{ name := "Loop", parent := some "Loop" },
    { name := "Leaf", parent := some "Gone" },
    { name := "Named", kind := .interface, methods := [{ name := "label" }] },
    { name := "Stray", parent := some "Missing", interfaces := ["Leaf"] },
    { name := "Base", interfaces := ["Named"] },
    { name := "Leaf", parent := some "Base", interfaces := ["Named"] }]

/-- The same class on its own. -/
def secluded : List ClassDecl :=
  [{ name := "Leaf", parent := some "Base", interfaces := ["Named"] },
    { name := "Base", interfaces := ["Named"] },
    { name := "Named", kind := .interface, methods := [{ name := "label" }] }]

/-- What surrounds a class makes no difference to it. -/
theorem request_local_crowded :
    (Codebase.ofList crowded).view "Leaf" = (Codebase.ofList secluded).view "Leaf" ∧
      ∃ res s, ({ shared := false } : Registry).request
          ((Codebase.ofList secluded).context .rejecting) "Leaf" = some (res, s) ∧
        ({ shared := false } : Registry).request
          ((Codebase.ofList crowded).context .rejecting) "Leaf" = some (res, s) := by
  have hclosed : ∀ x ∈ ["Leaf", "Base", "Named"],
      ∀ a ∈ (Codebase.ofList secluded).ancestorsOf x, a ∈ ["Leaf", "Base", "Named"] := by
    decide +kernel
  have hreach : ∀ m, (Codebase.ofList secluded).Reaches "Leaf" m →
      m ∈ ["Leaf", "Base", "Named"] := by
    intro m hm
    induction hm with
    | refl => exact List.mem_cons_self
    | tail _ hstep ih => exact hclosed _ ih _ hstep
  refine request_local secluded crowded "Leaf" (fun m hm => ?_) .rejecting false
  have hm := hreach m hm
  simp only [List.mem_cons, List.not_mem_nil, or_false] at hm
  rcases hm with rfl | rfl | rfl <;> simp [Codebase.ofList, secluded, crowded]

end ClassSurface.Registry
