import ClassSurface.Codebase.Source
import ClassSurface.Registry.Basic
import ClassSurface.Registry.Merge

/-! # Registry.Resolve — requesting and resolving classes

To request a class is to register its view, unless an entry is shared, and then to resolve the
entry: first its parent and its interfaces are requested in turn, then its methods are merged. An
entry that is met again while it is on the stack belongs to a dependency loop, and the request
fails; so does a request for a class that the source does not know. A failed request keeps what was
registered on the way and leaves the entry without a surface, so that it can be requested again.

`Outcome` is empty when requests nest deeper than the source allows.
-/

namespace ClassSurface

/-- What a registry works with. -/
structure Context where
  source : Source
  docs : DocReader

/-- The result of an operation, success or not, with the registry that it leaves. -/
abbrev Outcome (α : Type) := Option (Except ResolveError α × Registry)

/-- Goes on after a success. -/
def Outcome.andThen {α β : Type} (o : Outcome α) (f : α → Registry → Outcome β) : Outcome β :=
  match o with
  | none => none
  | some (.error e, r) => some (.error e, r)
  | some (.ok a, r) => f a r

@[simp] theorem Outcome.andThen_none {α β : Type} (f : α → Registry → Outcome β) :
    Outcome.andThen none f = none := rfl

@[simp] theorem Outcome.andThen_error {α β : Type} (e : ResolveError) (r : Registry)
    (f : α → Registry → Outcome β) :
    Outcome.andThen (some (.error e, r)) f = some (.error e, r) := rfl

@[simp] theorem Outcome.andThen_ok {α β : Type} (a : α) (r : Registry)
    (f : α → Registry → Outcome β) : Outcome.andThen (some (.ok a, r)) f = f a r := rfl

/-- What comes of two operations in a row: the failure of the first, or what comes of the second. -/
theorem Outcome.andThen_eq_some {α β : Type} {o : Outcome α} {f : α → Registry → Outcome β}
    {res : Except ResolveError β} {s : Registry} (h : o.andThen f = some (res, s)) :
    (∃ error, o = some (.error error, s) ∧ res = .error error) ∨
      ∃ a r, o = some (.ok a, r) ∧ f a r = some (res, s) := by
  rcases o with _ | ⟨error | a, r⟩
  · cases h
  · cases h
    exact .inl ⟨error, rfl, rfl⟩
  · exact .inr ⟨a, r, rfl, h⟩

/-- What is made of a result does not change how an operation fails. -/
theorem Outcome.andThen_ok_eq_some {α β : Type} {o : Outcome α} {f : α → β}
    {res : Except ResolveError β} {s : Registry}
    (h : o.andThen (fun a s => some (.ok (f a), s)) = some (res, s)) :
    ∃ res', o = some (res', s) ∧ res = res'.map f := by
  rcases Outcome.andThen_eq_some h with ⟨error, ho, rfl⟩ | ⟨a, t, ho, h⟩
  · exact ⟨_, ho, rfl⟩
  · cases h
    exact ⟨_, ho, rfl⟩

theorem Outcome.andThen_assoc {α β γ : Type} (o : Outcome α) (f : α → Registry → Outcome β)
    (g : β → Registry → Outcome γ) :
    (o.andThen f).andThen g = o.andThen fun a r => (f a r).andThen g := by
  rcases o with _ | ⟨error | a, r⟩ <;> rfl

theorem Outcome.andThen_done {α : Type} (o : Outcome α) :
    (o.andThen fun a r => some (.ok a, r)) = o := by
  rcases o with _ | ⟨error | a, r⟩ <;> rfl

/-- Two operations in a row come to an end if each of them does. -/
theorem Outcome.isSome_andThen {α β : Type} {o : Outcome α} {f : α → Registry → Outcome β}
    (ho : o.isSome) (hf : ∀ a r, o = some (.ok a, r) → (f a r).isSome) : (o.andThen f).isSome := by
  rcases o with _ | ⟨error | a, r⟩
  · cases ho
  · rfl
  · exact hf a r rfl

namespace Registry

def report (r : Registry) (events : List Event) : Registry := { r with log := r.log ++ events }

def countQuery (r : Registry) : Registry := { r with queries := r.queries + 1 }

def register (r : Registry) (e : Entry) : Registry := { r with entries := r.entries.push e }

def enter (r : Registry) (id : ClassId) : Registry := { r with stack := id :: r.stack }

/-- The entry for a view that arrives under the name asked for. -/
def newEntry (r : Registry) (name : String) (view : ClassView) : Entry :=
  { id := r.size, requested := name, view }

@[simp] theorem newEntry_requested (r : Registry) (name : String) (view : ClassView) :
    (r.newEntry name view).requested = name := rfl

@[simp] theorem newEntry_view (r : Registry) (name : String) (view : ClassView) :
    (r.newEntry name view).view = view := rfl

@[simp] theorem newEntry_surface (r : Registry) (name : String) (view : ClassView) :
    (r.newEntry name view).surface = none := rfl

/-- Registers a view under the name asked for, after a query. -/
def accept (r : Registry) (name : String) (view : ClassView) : Registry :=
  r.countQuery.register (r.newEntry name view)

/-- Takes up the entry `e`, which has the number `id`. -/
def takeUp (r : Registry) (id : ClassId) (e : Entry) : Registry :=
  (r.report [.resolving e.name]).enter id

def leave (r : Registry) : Registry := { r with stack := r.stack.tail }

/-- An entry that is under way, or, where entries are not shared, any entry of that class. -/
def isUnderWay (r : Registry) (id : ClassId) (e : Entry) : Bool :=
  id ∈ r.stack || (!r.shared && r.stack.any fun other => r.entries[other]?.any (·.name = e.name))

/-! ### The surface of a class whose ancestors are resolved -/

/-- The return type of the first method of that name among the ancestors. -/
def inheritedReturn (r : Registry) (ancestors : List ClassId) (name : String) : Option String :=
  (ancestors.findSome? (r.method? · name)).map (·.returnType)

def signatures (r : Registry) (docs : DocReader) (id : ClassId) (v : ClassView)
    (ancestors : List ClassId) : List Signature :=
  v.methods.map fun m => mergeMethod docs id m (r.inheritedReturn ancestors m.name)

/-- Puts the surface together. Of several methods, or documented methods, of one name the last one
counts. -/
def surface (r : Registry) (docs : DocReader) (id : ClassId) (v : ClassView)
    (ancestors : List ClassId) : Surface where
  parent := (ancestors.take v.parent.toList.length).head?
  interfaces := ancestors.drop v.parent.toList.length
  dynamicMethods := .ofList ((usableAnnotations docs v.docComment).filterMap Annotation.method?)
  methods := .ofList ((r.signatures docs id v ancestors).map fun s => (s.name, s))

def surfaceEvents (r : Registry) (docs : DocReader) (v : ClassView) (ancestors : List ClassId) :
    List Event :=
  classDocEvents docs v.name v.docComment ++
    v.methods.flatMap fun m =>
      methodEvents docs v.name m
        (mergeReturn (usableAnnotations docs m.docComment) m (r.inheritedReturn ancestors m.name))

/-- Gives the entry number `id` its surface. -/
def complete (r : Registry) (docs : DocReader) (id : ClassId) (v : ClassView)
    (ancestors : List ClassId) : Registry :=
  let surface := r.surface docs id v ancestors
  let events := r.surfaceEvents docs v ancestors
  { r with entries := r.entries.modify id ({ · with surface := some surface }) }.report events

/-! ### Requests -/

/-- Requests classes one after the other, up to the first failure. -/
def requestAll (request : String → Registry → Outcome ClassId) :
    List String → Registry → Outcome (List ClassId)
  | [], r => some (.ok [], r)
  | name :: names, r =>
    (request name r).andThen fun id r =>
      (requestAll request names r).andThen fun ids r => some (.ok (id :: ids), r)

/-- Resolves the entry `e`, which has the number `id`, by requests for its ancestors. -/
def resolveWith (docs : DocReader) (request : String → Registry → Outcome ClassId) (id : ClassId)
    (e : Entry) (r : Registry) : Outcome Unit :=
  if e.isResolved then some (.ok (), r)
  else if r.isUnderWay id e then some (.error (.reentrant e.name), r)
  else
    match requestAll request e.view.ancestors (r.takeUp id e) with
    | none => none
    | some (.error error, r) => some (.error error, r.leave)
    | some (.ok ancestors, r) => some (.ok (), (r.complete docs id e.view ancestors).leave)

/-- The entry that a request finds without asking the source. -/
def reusable? (r : Registry) (name : String) : Option (ClassId × Entry) :=
  if r.shared then r.find? name else none

/-- Requests a class, with at most `depth` requests under way at once. -/
def requestWithin (ctx : Context) : Nat → String → Registry → Outcome ClassId
  | 0, _, _ => none
  | depth + 1, name, r =>
    match r.reusable? name with
    | some (id, e) =>
      (resolveWith ctx.docs (requestWithin ctx depth) id e r).andThen fun _ r => some (.ok id, r)
    | none =>
      match ctx.source.answer r.queries name with
      | .error error => some (.error (.source error), r.countQuery)
      | .ok view =>
        (resolveWith ctx.docs (requestWithin ctx depth) r.size (r.newEntry name view)
          (r.accept name view)).andThen fun _ s => some (.ok r.size, s)

/-- The number of the entry for `name`, which is registered and resolved as needed. -/
def request (r : Registry) (ctx : Context) (name : String) : Outcome ClassId :=
  requestWithin ctx ctx.source.depth name r

/-- Resolves the entry number `id`. -/
def resolve (r : Registry) (ctx : Context) (id : ClassId) (h : id < r.entries.size) :
    Outcome Unit :=
  resolveWith ctx.docs (requestWithin ctx ctx.source.depth) id r.entries[id] r

/-- Requests a class and makes sure that the entry it is given is resolved. -/
def resolveClass (r : Registry) (ctx : Context) (name : String) : Outcome ClassId :=
  (r.request ctx name).andThen fun id r =>
    if h : id < r.entries.size then (r.resolve ctx id h).andThen fun _ r => some (.ok id, r)
    else some (.ok id, r)

end Registry

end ClassSurface
