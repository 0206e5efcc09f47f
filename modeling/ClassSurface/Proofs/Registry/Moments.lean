import ClassSurface.Proofs.Registry.History

/-! # Proofs.Registry.Moments — every registry that an operation passes through

`momentsWithin` and `Op.moments` list the registries that a request and an operation pass through,
one for each step, in order. They are defined along the operations, as these are.

* `Path`: a list of registries that follow each other by single steps.
* `Op.moments_path`: the moments of an operation are a path from the registry that it starts from to
  the one that it leaves, whether it succeeds or fails.
-/

namespace ClassSurface

/-- What an operation passes through after a success; after a failure that is nothing. -/
def Outcome.momentsThen {α : Type} (o : Outcome α) (next : α → Registry → List Registry) :
    List Registry :=
  match o with
  | some (.ok a, r) => next a r
  | _ => []

@[simp] theorem Outcome.momentsThen_error {α : Type} (error : ResolveError) (r : Registry)
    (next : α → Registry → List Registry) :
    Outcome.momentsThen (some (.error error, r)) next = [] := rfl

@[simp] theorem Outcome.momentsThen_ok {α : Type} (a : α) (r : Registry)
    (next : α → Registry → List Registry) :
    Outcome.momentsThen (some (.ok a, r)) next = next a r := rfl

namespace Registry

/-! ### The moments, along the operations -/

/-- The moments of requests made one after the other; `moments` gives those of a single one. -/
def momentsOfAll (request : String → Registry → Outcome ClassId)
    (moments : String → Registry → List Registry) : List String → Registry → List Registry
  | [], _ => []
  | name :: names, r =>
    moments name r ++ (request name r).momentsThen fun _ s => momentsOfAll request moments names s

/-- The moments of an attempt to resolve the entry `e`, which has the number `id`. -/
def momentsOfResolve (docs : DocReader) (request : String → Registry → Outcome ClassId)
    (moments : String → Registry → List Registry) (id : ClassId) (e : Entry) (r : Registry) :
    List Registry :=
  if e.isResolved then []
  else if r.isUnderWay id e then []
  else
    r.takeUp id e :: momentsOfAll request moments e.view.ancestors (r.takeUp id e) ++
      match requestAll request e.view.ancestors (r.takeUp id e) with
      | none => []
      | some (.error _, t) => [t.leave]
      | some (.ok ancestors, t) => [(t.complete docs id e.view ancestors).leave]

/-- The moments of a request that may nest `depth` deep. -/
def momentsWithin (ctx : Context) : Nat → String → Registry → List Registry
  | 0, _, _ => []
  | depth + 1, name, r =>
    match r.reusable? name with
    | some (id, e) =>
      momentsOfResolve ctx.docs (requestWithin ctx depth) (momentsWithin ctx depth) id e r
    | none =>
      match ctx.source.answer r.queries name with
      | .error _ => [r.countQuery]
      | .ok view =>
        r.accept name view :: momentsOfResolve ctx.docs (requestWithin ctx depth)
          (momentsWithin ctx depth) r.size (r.newEntry name view) (r.accept name view)

/-- The moments of an attempt to resolve the entry number `id`. -/
def momentsOfEntry (ctx : Context) (id : ClassId) (r : Registry) : List Registry :=
  if h : id < r.entries.size then
    momentsOfResolve ctx.docs (requestWithin ctx ctx.source.depth)
      (momentsWithin ctx ctx.source.depth) id r.entries[id] r
  else []

/-- The moments of a document. -/
def momentsOfDocument (ctx : Context) (scope : Scope) : List String → Registry → List Registry
  | [], _ => []
  | name :: names, r =>
    if scope.contains name then
      momentsWithin ctx ctx.source.depth name r ++ (r.request ctx name).momentsThen fun id s =>
        s.markRendered id :: momentsOfDocument ctx scope names (s.markRendered id)
    else momentsOfDocument ctx scope names r

/-- The moments of one operation. -/
def Op.moments (ctx : Context) : Op → Registry → List Registry
  | request name, r => momentsWithin ctx ctx.source.depth name r
  | resolveClass name, r =>
    momentsWithin ctx ctx.source.depth name r ++
      (r.request ctx name).momentsThen fun id s => momentsOfEntry ctx id s
  | resolve id, r => momentsOfEntry ctx id r
  | document names scope, r => momentsOfDocument ctx scope names r

variable {ctx : Context} {r s t : Registry} {ms ms' : List Registry} {id : ClassId} {e : Entry}
  {name : String}

/-! ### Paths -/

/-- `ms` are the registries on a way from `r` to `s` by single steps, each after its step. -/
inductive Path (ctx : Context) : Registry → List Registry → Registry → Prop where
  | nil (r : Registry) : Path ctx r [] r
  | cons {r t s : Registry} {ms : List Registry} (step : Step ctx r t) (rest : Path ctx t ms s) :
      Path ctx r (t :: ms) s

theorem Path.single (h : Step ctx r s) : Path ctx r [s] s := .cons h (.nil s)

theorem Path.append (h : Path ctx r ms t) (h' : Path ctx t ms' s) : Path ctx r (ms ++ ms') s := by
  induction h with
  | nil => exact h'
  | cons step _ ih => exact .cons step (ih h')

/-- All that a path passes through is reached by steps. -/
theorem Path.steps_of_mem (h : Path ctx r ms s) : ∀ t ∈ r :: ms, Steps ctx r t := by
  induction h with
  | nil r =>
    intro t ht
    obtain rfl : t = r := by simpa using ht
    exact .refl
  | cons step _ ih =>
    intro t ht
    rcases List.mem_cons.mp ht with rfl | ht
    · exact .refl
    · exact (ih t ht).head step

/-! ### Operations pass through what is listed -/

/-- `ms` is what the operation on `r` that comes to `o` passes through. -/
def PassesTo {α : Type} (ctx : Context) (r : Registry) (ms : List Registry) (o : Outcome α) :
    Prop :=
  ∀ ⦃res : Except ResolveError α⦄ ⦃s : Registry⦄, o = some (res, s) → Path ctx r ms s

theorem PassesTo.done {α : Type} (res : Except ResolveError α) :
    PassesTo ctx r [] (some (res, r)) := by
  intro res' s h
  cases h
  exact .nil r

theorem PassesTo.andThen {α β : Type} {o : Outcome α} {f : α → Registry → Outcome β}
    {next : α → Registry → List Registry} (ho : PassesTo ctx r ms o)
    (hf : ∀ a t, o = some (.ok a, t) → PassesTo ctx t (next a t) (f a t)) :
    PassesTo ctx r (ms ++ o.momentsThen next) (o.andThen f) := by
  intro res s h
  rcases Outcome.andThen_eq_some h with ⟨error, ho', -⟩ | ⟨a, t, ho', h⟩
  · rw [ho', Outcome.momentsThen_error, List.append_nil]
    exact ho ho'
  · rw [ho', Outcome.momentsThen_ok]
    exact (ho ho').append (hf a t ho' h)

/-- To make something of a result passes through nothing more. -/
theorem PassesTo.map {α β : Type} {o : Outcome α} (ho : PassesTo ctx r ms o) (f : α → β) :
    PassesTo ctx r ms (o.andThen fun a s => some (.ok (f a), s)) := by
  intro res s h
  obtain ⟨res', ho', -⟩ := Outcome.andThen_ok_eq_some h
  exact ho ho'

section Nested

variable {request : String → Registry → Outcome ClassId}
  {moments : String → Registry → List Registry} (hreq : Delivers ctx request)
  (hpass : ∀ name r, Sound ctx.docs r → PassesTo ctx r (moments name r) (request name r))
include hreq hpass

theorem momentsOfAll_passesTo :
    ∀ (names : List String) (r : Registry), Sound ctx.docs r →
      PassesTo ctx r (momentsOfAll request moments names r) (requestAll request names r)
  | [], r, _ => .done _
  | name :: names, r, hs => by
    rw [momentsOfAll, requestAll]
    refine (hpass name r hs).andThen fun id t ht => ?_
    have hs' : Sound ctx.docs t := (hreq hs ht).1.steps.sound hs
    exact (momentsOfAll_passesTo names t hs').map (id :: ·)

theorem momentsOfResolve_passesTo (hs : Sound ctx.docs r) (he : r.entries[id]? = some e) :
    PassesTo ctx r (momentsOfResolve ctx.docs request moments id e r)
      (resolveWith ctx.docs request id e r) := by
  intro res s h
  rw [momentsOfResolve]
  cases resolving_of_resolveWith h with
  | before hres =>
    rw [if_pos hres]
    exact .nil r
  | reentered hopen hway =>
    rw [if_neg (by simp [hopen]), if_pos hway]
    exact .nil r
  | failed hopen hfree error t hall =>
    have henter : Step ctx r (r.takeUp id e) := .enter id e he hopen hfree
    have hpath := momentsOfAll_passesTo hreq hpass _ _ (henter.sound hs) hall
    have htop := (requestAll_delivers hreq _ (henter.sound hs) hall).1.back_to_top.1
    rw [if_neg (by simp [hopen]), if_neg (by simp [hfree]), hall]
    exact .cons henter (hpath.append (.single (.abandon id r.stack htop)))
  | completed hopen hfree ancestors t hall =>
    have henter : Step ctx r (r.takeUp id e) := .enter id e he hopen hfree
    have hpath := momentsOfAll_passesTo hreq hpass _ _ (henter.sound hs) hall
    rw [if_neg (by simp [hopen]), if_neg (by simp [hfree]), hall]
    exact .cons henter (hpath.append (.single (step_complete hreq hs he hopen hfree hall)))

end Nested

/-- Requests pass through what is listed, however deep they may nest. -/
theorem momentsWithin_passesTo (ctx : Context) (depth : Nat) (name : String) (r : Registry)
    (hs : Sound ctx.docs r) :
    PassesTo ctx r (momentsWithin ctx depth name r) (requestWithin ctx depth name r) := by
  induction depth generalizing name r with
  | zero =>
    intro res s h
    cases h
  | succ depth ih =>
    have hreq := requestWithin_delivers ctx depth
    cases hreuse : r.reusable? name with
    | some found =>
      obtain ⟨id, e⟩ := found
      obtain ⟨-, he⟩ := find?_eq_some_iff.mp (find?_of_reusable? hreuse)
      rw [momentsWithin, requestWithin, hreuse]
      exact (momentsOfResolve_passesTo hreq ih hs he).map fun _ => id
    | none =>
      cases hanswer : ctx.source.answer r.queries name with
      | error error =>
        rw [momentsWithin, requestWithin, hreuse, hanswer]
        intro res s h
        cases h
        exact .single (.refuse name error hreuse hanswer)
      | ok view =>
        have haccept : Step ctx r (r.accept name view) := .accept name view hreuse hanswer
        rw [momentsWithin, requestWithin, hreuse, hanswer]
        intro res s h
        have hrest := (momentsOfResolve_passesTo hreq ih (haccept.sound hs)
          (getElem?_accept_size r name view)).map fun _ => r.size
        exact .cons haccept (hrest h)

theorem momentsOfEntry_passesTo (hs : Sound ctx.docs r) (hid : id < r.entries.size) :
    PassesTo ctx r (momentsOfEntry ctx id r) (r.resolve ctx id hid) := by
  rw [momentsOfEntry, dif_pos hid]
  exact momentsOfResolve_passesTo (requestWithin_delivers ctx _) (momentsWithin_passesTo ctx _) hs
    (Array.getElem?_eq_getElem hid)

theorem momentsOfDocument_passesTo (scope : Scope) :
    ∀ (names : List String) (r : Registry), Sound ctx.docs r →
      PassesTo ctx r (momentsOfDocument ctx scope names r) (Registry.document ctx scope names r)
  | [], r, _ => .done _
  | name :: names, r, hs => by
    rw [momentsOfDocument, document]
    split
    · refine (momentsWithin_passesTo ctx _ name r hs).andThen fun id t ht => ?_
      obtain ⟨e, he, -, hres⟩ := provides_of_request hs ht
      have hrender : Step ctx t (t.markRendered id) := .render id e he hres
      have hs' := hrender.sound ((request_steps hs name ht).1.sound hs)
      refine PassesTo.map (fun res s h => ?_) _
      exact .cons hrender (momentsOfDocument_passesTo scope names (t.markRendered id) hs' h)
    · exact momentsOfDocument_passesTo scope names r hs

/-- The moments of an operation lead by single steps to the registry that it leaves. -/
theorem Op.moments_path (hs : Sound ctx.docs r) (op : Op) :
    PassesTo ctx r (op.moments ctx r) (op.perform ctx r) := by
  cases op with
  | request name => exact (momentsWithin_passesTo ctx _ name r hs).map _
  | resolveClass name =>
    refine PassesTo.map ((momentsWithin_passesTo ctx _ name r hs).andThen fun id t ht => ?_) _
    have hs' := (request_steps hs name ht).1.sound hs
    split
    · rename_i hid
      exact (momentsOfEntry_passesTo hs' hid).map fun _ => id
    · rename_i hid
      rw [momentsOfEntry, dif_neg hid]
      exact .done _
  | resolve id =>
    rw [Op.moments, Op.perform]
    split
    · rename_i hid
      exact (momentsOfEntry_passesTo hs hid).map _
    · rename_i hid
      rw [momentsOfEntry, dif_neg hid]
      exact .done _
  | document names scope => exact (momentsOfDocument_passesTo scope names r hs).map _

end Registry

end ClassSurface
