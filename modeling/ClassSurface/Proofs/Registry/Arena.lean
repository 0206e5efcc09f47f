import ClassSurface.Proofs.Registry.History
import Std.Data.HashMap

/-! # Proofs.Registry.Arena — a store of descriptors that is written step by step

A registry keeps of a class its view and, in one piece, its surface; what else there is to know is
read off. An arena keeps it all, and each operation writes what it finds out as soon as it is found
out:

* a `Descriptor` has a number and a state, and its surface is filled in edge by edge while its
  ancestors are requested one after the other (`link`). If one of them cannot be had, everything is
  taken back (`Descriptor.reset`);
* an index leads from names to numbers, and the stack grows and shrinks at its end;
* whatever is given for a name is resolved once more (`obtain`).

Operations are programs that read and write the arena (`Work`). `Proofs.Registry.Simulation`
compares them with those on a registry.
-/

namespace ClassSurface

/-- A surface that nothing has been written into. -/
def Surface.empty : Surface where
  parent := none
  interfaces := []
  dynamicMethods := ∅
  methods := ∅

/-- A class, how far it has come, and what has been written of its surface. -/
structure Descriptor extends Surface where
  id : ClassId
  view : ClassView
  state : State

namespace Descriptor

def new (id : ClassId) (view : ClassView) : Descriptor where
  id := id
  view := view
  state := .pending
  parent := none
  interfaces := []
  dynamicMethods := ∅
  methods := ∅

/-- Takes back everything that may have been written since the descriptor was created. -/
def reset (d : Descriptor) : Descriptor :=
  { d with state := .pending, parent := none, interfaces := [], dynamicMethods := ∅, methods := ∅ }

def setParent (other : ClassId) (d : Descriptor) : Descriptor := { d with parent := some other }

def addInterface (other : ClassId) (d : Descriptor) : Descriptor :=
  { d with interfaces := d.interfaces ++ [other] }

def name (d : Descriptor) : String := d.view.name

/-- The class as far as its surface has been written. -/
def text (d : Descriptor) : String :=
  Entry.text { id := d.id, requested := d.name, view := d.view, surface := some d.toSurface }

end Descriptor

structure Arena where
  /-- Whether requests for one name share one descriptor. -/
  shared : Bool := true
  descriptors : Array Descriptor := #[]
  byName : Std.HashMap String ClassId := ∅
  /-- The descriptors being resolved, the innermost last. -/
  stack : Array ClassId := #[]
  /-- The classes written into documents, in order. -/
  rendered : Array ClassId := #[]
  /-- How often the source was asked. -/
  queries : Nat := 0
  log : Array Event := #[]

namespace Arena

/-! ### Single changes -/

def report (a : Arena) (events : List Event) : Arena := { a with log := a.log ++ events }

/-- Changes the descriptor number `id`. -/
def write (a : Arena) (id : ClassId) (f : Descriptor → Descriptor) : Arena :=
  { a with descriptors := a.descriptors.modify id f }

/-- A new descriptor at the end. A name that the index has already keeps its number. -/
def create (a : Arena) (name : String) (view : ClassView) : Arena :=
  { a with
    descriptors := a.descriptors.push (.new a.descriptors.size view)
    byName := a.byName.insertIfNew name a.descriptors.size }

def push (a : Arena) (id : ClassId) : Arena := { a with stack := a.stack.push id }

def pop (a : Arena) : Arena := { a with stack := a.stack.pop }

/-- Takes up the descriptor number `id`, of a class of this name. -/
def takeUp (a : Arena) (id : ClassId) (name : String) : Arena :=
  ((a.report [.resolving name]).write id ({ · with state := .inProgress })).push id

def markRendered (a : Arena) (id : ClassId) : Arena := { a with rendered := a.rendered.push id }

/-- The number that a request finds without asking the source. -/
def reusable? (a : Arena) (name : String) : Option ClassId :=
  if a.shared then a.byName[name]? else none

/-- Some descriptor of a class of this name is being resolved. -/
def isUnderWay (a : Arena) (name : String) : Bool :=
  a.stack.any fun other => a.descriptors[other]?.any (·.name = name)

/-- The return type of the first method of that name, with the parent of `d` or an interface. -/
def inheritedReturn (a : Arena) (d : Descriptor) (name : String) : Option String :=
  ((d.parent.toList ++ d.interfaces).findSome? fun other =>
    a.descriptors[other]?.bind (·.methods[name]?)).map (·.returnType)

/-! ### Programs -/

/-- A program that reads and writes an arena and may fail on the way. It has no outcome when
requests nest deeper than the source allows, or when it asks for a number that no descriptor has. -/
abbrev Work := ExceptT ResolveError (StateT Arena Option)

/-- What comes of a program, together with the arena that it leaves. -/
def Work.from {α : Type} (work : Work α) (a : Arena) : Option (Except ResolveError α × Arena) :=
  work.run.run a

def stuck {α : Type} : Work α := ExceptT.mk fun _ => none

section Run

variable {α β : Type} (a : Arena)

@[simp] theorem from_pure (x : α) : Work.from (pure x) a = some (.ok x, a) := rfl

@[simp] theorem from_throw (error : ResolveError) :
    Work.from (throw error : Work α) a = some (.error error, a) := rfl

@[simp] theorem from_get : Work.from get a = some (.ok a, a) := rfl

@[simp] theorem from_set (b : Arena) : Work.from (set b) a = some (.ok (), b) := rfl

@[simp] theorem from_modify (f : Arena → Arena) : Work.from (modify f) a = some (.ok (), f a) := rfl

/-- One program after another: the second goes on from what the first leaves, after a success. -/
theorem from_bind (work : Work α) (f : α → Work β) :
    Work.from (work >>= f) a =
      match work.from a with
      | none => none
      | some (.error error, b) => some (.error error, b)
      | some (.ok x, b) => (f x).from b := by
  rw [Work.from, ExceptT.run_bind, StateT.run_bind]
  show Option.bind (work.from a) _ = _
  rcases work.from a with _ | ⟨error | x, b⟩ <;> rfl

@[simp] theorem from_get_bind (f : Arena → Work β) : Work.from (get >>= f) a = (f a).from a := by
  rw [from_bind, from_get]

@[simp] theorem from_modify_bind (f : Arena → Arena) (g : Unit → Work β) :
    Work.from (modify f >>= g) a = (g ()).from (f a) := by
  rw [from_bind, from_modify]

/-- A program under observation does not fail; its failure is the result. -/
@[simp] theorem from_observing (work : Work α) :
    Work.from (observing work) a = (work.from a).map fun (res, b) => (.ok res, b) := by
  have htry : Work.from (observing work) a = Option.bind
      (Work.from (work >>= fun x => pure (Except.ok x)) a) fun
        | (.ok x, b) => some (.ok x, b)
        | (.error error, b) => some (.ok (.error error), b) := by
    show Option.bind _ _ = _
    congr 1
    funext ⟨res, b⟩
    cases res <;> rfl
  rw [htry, from_bind]
  rcases work.from a with _ | ⟨error | x, b⟩ <;> rfl

end Run

def descriptor (id : ClassId) : Work Descriptor := do
  match (← get).descriptors[id]? with
  | some d => return d
  | none => stuck

theorem from_descriptor_bind {β : Type} {a : Arena} {id : ClassId} {d : Descriptor}
    (hd : a.descriptors[id]? = some d) (f : Descriptor → Work β) :
    Work.from (descriptor id >>= f) a = (f d).from a := by
  have hfrom : (descriptor id).from a = some (.ok d, a) := by
    rw [descriptor, from_get_bind, hd, from_pure]
  rw [from_bind, hfrom]

/-- Asks the source for the view of a class. -/
def query (source : Source) (name : String) : Work ClassView := do
  let a ← get
  set { a with queries := a.queries + 1 }
  match source.answer a.queries name with
  | .ok view => return view
  | .error error => throw (.source error)

theorem from_query (source : Source) (name : String) (a : Arena) :
    (query source name).from a =
      match source.answer a.queries name with
      | .ok view => some (.ok view, { a with queries := a.queries + 1 })
      | .error error => some (.error (.source error), { a with queries := a.queries + 1 }) := by
  rw [query, from_get_bind, from_bind, from_set]
  cases source.answer a.queries name <;> rfl

/-- Requests classes one after the other; each number is written into the descriptor number `id` as
soon as it is known. -/
def link (obtain : String → Work ClassId) (id : ClassId)
    (put : ClassId → Descriptor → Descriptor) : List String → Work Unit
  | [] => return ()
  | name :: names => do
    let other ← obtain name
    modify (·.write id (put other))
    link obtain id put names

/-- Requests the ancestors of a class: the parent, then the interfaces one by one. -/
def linkAncestors (obtain : String → Work ClassId) (id : ClassId) (v : ClassView) : Work Unit := do
  link obtain id Descriptor.setParent v.parent.toList
  link obtain id Descriptor.addInterface v.interfaces

/-- The methods that a class has by documentation alone; a later one of the same name replaces an
earlier one. -/
def dynamicMethods (docs : DocReader) (v : ClassView) : Std.TreeMap String String :=
  ((usableAnnotations docs v.docComment).filterMap Annotation.method?).foldl
    (fun methods member => methods.insert member.1 member.2) ∅

/-- Works out one method of `d`, whose ancestors are resolved. -/
def resolveMethod (docs : DocReader) (d : Descriptor) (m : MethodDecl) : Work Signature := do
  let inherited := (← get).inheritedReturn d m.name
  modify (·.report (methodEvents docs d.name m
    (mergeReturn (usableAnnotations docs m.docComment) m inherited)))
  return mergeMethod docs d.id m inherited

/-- Works out methods one after the other; a later one of the same name replaces an earlier one. -/
def resolveMethods (docs : DocReader) (d : Descriptor) :
    List MethodDecl → Std.TreeMap String Signature → Work (Std.TreeMap String Signature)
  | [], methods => return methods
  | m :: ms, methods => do
    let sig ← resolveMethod docs d m
    resolveMethods docs d ms (methods.insert m.name sig)

/-- Fills in the documented methods of the descriptor number `id`. -/
def fillInDynamicMethods (docs : DocReader) (id : ClassId) (v : ClassView) : Work Unit := do
  modify (·.report (classDocEvents docs v.name v.docComment))
  modify (·.write id ({ · with dynamicMethods := dynamicMethods docs v }))

/-- Fills in the methods of the descriptor number `id`, with its ancestors in place. -/
def fillInMethods (docs : DocReader) (id : ClassId) : Work Unit := do
  let d ← descriptor id
  let methods ← resolveMethods docs d d.view.methods ∅
  modify (·.write id ({ · with methods := methods }))

/-- Fills in the surface of the descriptor number `id`: its ancestors, then its methods. -/
def fillIn (docs : DocReader) (obtain : String → Work ClassId) (id : ClassId) : Work Unit := do
  let d ← descriptor id
  linkAncestors obtain id d.view
  fillInDynamicMethods docs id d.view
  fillInMethods docs id

/-- Takes up the descriptor number `id`, fills it in and closes it. If it cannot be filled in,
nothing of it is kept. -/
def undertake (docs : DocReader) (obtain : String → Work ClassId) (id : ClassId) (name : String) :
    Work Unit := do
  modify (·.takeUp id name)
  let result ← observing (fillIn docs obtain id)
  modify (·.pop)
  match result with
  | .ok () => modify (·.write id ({ · with state := .resolved }))
  | .error error =>
    modify (·.write id Descriptor.reset)
    throw error

/-- Resolves the descriptor number `id`. -/
def resolve (docs : DocReader) (obtain : String → Work ClassId) (id : ClassId) : Work Unit := do
  let d ← descriptor id
  match d.state with
  | .resolved => return ()
  | .inProgress => throw (.reentrant d.name)
  | .pending =>
    let a ← get
    if !a.shared && a.isUnderWay d.name then throw (.reentrant d.name)
    else undertake docs obtain id d.name

/-- The number that the index has for a name, or that of a new descriptor, once it is resolved. -/
def getOrCreate (ctx : Context) (obtain : String → Work ClassId) (name : String) :
    Work ClassId := do
  match (← get).reusable? name with
  | some id =>
    resolve ctx.docs obtain id
    return id
  | none =>
    let view ← query ctx.source name
    let id := (← get).descriptors.size
    modify (·.create name view)
    resolve ctx.docs obtain id
    return id

/-- Requests a class and resolves what is given for it, with at most `depth` requests under way at
once. -/
def obtain (ctx : Context) : Nat → String → Work ClassId
  | 0, _ => stuck
  | depth + 1, name => do
    let id ← getOrCreate ctx (obtain ctx depth) name
    resolve ctx.docs (obtain ctx depth) id
    return id

/-- Requests a class, with at most `depth` requests under way at once. -/
def request (ctx : Context) : Nat → String → Work ClassId
  | 0, _ => stuck
  | depth + 1, name => getOrCreate ctx (obtain ctx depth) name

/-- Writes the classes in scope down behind what is written already. -/
def document (ctx : Context) (scope : Scope) (output : String) : List String → Work String
  | [] => return output
  | name :: names => do
    if scope.contains name then
      let id ← obtain ctx ctx.source.depth name
      let d ← descriptor id
      modify (·.markRendered id)
      document ctx scope (output ++ d.text ++ "\n") names
    else document ctx scope output names

/-! ### Histories -/

open Registry (Op Answer)

/-- Performs one operation. -/
def perform (ctx : Context) : Op → Work Answer
  | .request name => do
    let id ← request ctx ctx.source.depth name
    return .entry id
  | .resolveClass name => do
    let id ← obtain ctx ctx.source.depth name
    return .entry id
  | .resolve id => do
    if id < (← get).descriptors.size then
      resolve ctx.docs (obtain ctx ctx.source.depth) id
      return .done
    else return .noEntry
  | .document names scope => do
    let text ← document ctx scope "" names
    return .text text

/-- Performs operations one after the other, whether they succeed or fail, and collects what they
give back. -/
def play (ctx : Context) : List Op → Arena → Option (List (Except ResolveError Answer) × Arena)
  | [], a => some ([], a)
  | op :: ops, a =>
    match (perform ctx op).from a with
    | none => none
    | some (answer, b) => (play ctx ops b).map fun (answers, b) => (answer :: answers, b)

end Arena

end ClassSurface
