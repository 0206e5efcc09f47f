import ClassSurface.Proofs.Registry.History
import ClassSurface.Proofs.Registry.Surface

/-! # Proofs.Registry.Parameters — parameters and their annotations, paired by position

The annotations of a method come in any order and of any kind. Its first parameter annotation goes
with the first parameter, the second with the second, and so on, whatever stands between them
(`getElem?_mergeParams`). What is left over changes nothing and is reported, once for each
annotation.

* `PairsByPosition`: how the annotations of one method take part in its signature and its events.
* `Step.tellsSurplus`: in a log there are the reports about the resolved entries and no others.
* `parameters_by_position`: both together, after any history.
-/

namespace ClassSurface

/-! ### Parameter annotations -/

/-- What a parameter annotation says: a type and a name, of which either may be empty. -/
def Annotation.param? : Annotation → Option (String × String)
  | .param typeHint name => some (typeHint, name)
  | _ => none

/-- What the parameter annotations say, in order. -/
def paramNotes (notes : List Annotation) : List (String × String) :=
  notes.filterMap Annotation.param?

/-- The annotations that are not about parameters, in order. -/
def otherNotes (notes : List Annotation) : List Annotation :=
  notes.filter (·.param?.isNone)

theorem param?_eq_none {note : Annotation}
    (h : ∀ typeHint name, note ≠ .param typeHint name) : note.param? = none := by
  cases note with
  | param typeHint name => exact absurd rfl (h typeHint name)
  | _ => rfl

@[simp] theorem paramNotes_nil : paramNotes [] = [] := rfl

@[simp] theorem paramNotes_cons_param (typeHint name : String) (notes : List Annotation) :
    paramNotes (.param typeHint name :: notes) = (typeHint, name) :: paramNotes notes := rfl

theorem paramNotes_cons_of_none {note : Annotation} (h : note.param? = none)
    (notes : List Annotation) : paramNotes (note :: notes) = paramNotes notes := by
  unfold paramNotes
  rw [List.filterMap_cons_none h]

@[simp] theorem paramNotes_append (notes later : List Annotation) :
    paramNotes (notes ++ later) = paramNotes notes ++ paramNotes later :=
  List.filterMap_append

/-- What `note` makes of a parameter. -/
def Parameter.noted (p : Parameter) : Option (String × String) → Parameter
  | none => p
  | some (typeHint, name) => p.annotate typeHint name

@[simp] theorem Parameter.default_noted (p : Parameter) (note : Option (String × String)) :
    (p.noted note).default = p.default := by
  cases note <;> rfl

/-- The parameter number `i` goes with the parameter annotation number `i`. -/
theorem getElem?_mergeParams (notes : List Annotation) (ps : List Parameter) (i : Nat) :
    (mergeParams notes ps)[i]? = ps[i]?.map (·.noted (paramNotes notes)[i]?) := by
  fun_induction mergeParams notes ps generalizing i with
  | case1 => simp
  | case2 ps => cases ps[i]? <;> simp [Parameter.noted]
  | case3 typeHint name notes p ps ih =>
    cases i with
    | zero => simp [Parameter.noted]
    | succ i => simp [ih]
  | case4 note notes p ps hnote ih =>
    rw [ih, paramNotes_cons_of_none (param?_eq_none hnote)]

/-- What goes beyond the parameters has no part in the merge. -/
theorem mergeParams_congr {notes notes' : List Annotation} {ps : List Parameter}
    (h : (paramNotes notes').take ps.length = (paramNotes notes).take ps.length) :
    mergeParams notes' ps = mergeParams notes ps := by
  apply List.ext_getElem?
  intro i
  rw [getElem?_mergeParams, getElem?_mergeParams]
  by_cases hi : i < ps.length
  · have hsame := congrArg (·[i]?) h
    simp only [List.getElem?_take, hi, if_true] at hsame
    rw [hsame]
  · rw [List.getElem?_eq_none (Nat.le_of_not_lt hi)]
    rfl

/-- The return type does not depend on parameter annotations. -/
theorem annotatedReturn_otherNotes (notes : List Annotation) :
    annotatedReturn (otherNotes notes) = annotatedReturn notes := by
  unfold annotatedReturn otherNotes
  rw [List.filterMap_filter]
  congr 1
  apply List.filterMap_congr
  intro note _
  cases note <;> rfl

/-! ### One parameter -/

/-- `q` is the declared parameter `p` with what `note` says about it, if anything. -/
structure Parameter.Merges (p : ParameterDecl) (note : Option (String × String)) (q : Parameter) :
    Prop where
  /-- The annotated type counts if there is one that is not empty. -/
  typeHint_said : ∀ typeHint name, note = some (typeHint, name) → typeHint ≠ "" →
    q.typeHint = typeHint
  typeHint_kept : (∀ typeHint name, note = some (typeHint, name) → typeHint = "") →
    q.typeHint = p.typeHint.getD ""
  /-- So does the annotated name. -/
  name_said : ∀ typeHint name, note = some (typeHint, name) → name ≠ "" → q.name = name
  name_kept : (∀ typeHint name, note = some (typeHint, name) → name = "") → q.name = p.name
  isOptional : q.isOptional = p.isOptional
  isVariadic : q.isVariadic = p.isVariadic
  byReference : q.byReference = p.byReference
  /-- There is a default for an optional parameter that is not variadic, and it is the declared
  one. -/
  default_isSome : q.default.isSome ↔ p.isOptional = true ∧ p.isVariadic = false
  default_eq : ∀ value, q.default = some value → value = p.default

theorem Parameter.merges_noted (p : ParameterDecl) (note : Option (String × String)) :
    Parameter.Merges p note ((Parameter.ofDecl p).noted note) where
  typeHint_said := by
    rintro typeHint name rfl hne
    simp [Parameter.noted, Parameter.annotate, hne]
  typeHint_kept := by
    intro hempty
    rcases note with _ | ⟨typeHint, name⟩
    · rfl
    · simp [Parameter.noted, Parameter.annotate, Parameter.ofDecl, hempty typeHint name rfl]
  name_said := by
    rintro typeHint name rfl hne
    simp [Parameter.noted, Parameter.annotate, hne]
  name_kept := by
    intro hempty
    rcases note with _ | ⟨typeHint, name⟩
    · rfl
    · simp [Parameter.noted, Parameter.annotate, Parameter.ofDecl, hempty typeHint name rfl]
  isOptional := by cases note <;> rfl
  isVariadic := by cases note <;> rfl
  byReference := by cases note <;> rfl
  default_isSome := by simp [Parameter.ofDecl]
  default_eq := by
    intro value hvalue
    rw [Parameter.default_noted, Parameter.ofDecl, Option.ite_none_right_eq_some] at hvalue
    exact (Option.some.inj hvalue.2).symm

/-! ### Annotations that are left over -/

/-- An event at the lowest level that tells of a parameter annotation being ignored. -/
def Event.ignoresParam (event : Event) : Bool :=
  event.level = .debug ∧ "Ignoring @param".toList <+: event.message.toList

theorem Event.ignoresParam_surplusParam (className method parameter : String) :
    (Event.surplusParam className method parameter).ignoresParam = true := by
  have hstart : "Ignoring @param".toList <+: "Ignoring @param ".toList := by decide +kernel
  unfold Event.ignoresParam Event.message
  rw [String.toList_append, String.toList_append, List.append_assoc]
  exact decide_eq_true ⟨rfl, hstart.trans (List.prefix_append _ _)⟩

theorem Event.ignoresParam_eq_false {event : Event}
    (h : ∀ className method parameter, event ≠ .surplusParam className method parameter) :
    event.ignoresParam = false := by
  have hresolving : ¬ "Ignoring @param".toList <+: "Resolving class".toList := by decide +kernel
  have hresolved : ¬ "Ignoring @param".toList <+: "Resolved method".toList := by decide +kernel
  apply decide_eq_false
  rintro ⟨hlevel, hmessage⟩
  cases event with
  | surplusParam className method parameter => exact h _ _ _ rfl
  | resolving className => exact hresolving hmessage
  | resolvedMethod className method returnType => exact hresolved hmessage
  | _ => cases hlevel

/-- The events about annotations that are left over when `count` parameters have theirs. -/
def surplusEvents (className method : String) (count : Nat) (notes : List Annotation) :
    List Event :=
  ((paramNotes notes).drop count).map fun note => .surplusParam className method note.2

/-- An annotation that is not about a parameter uses up none, and is reported if it is invalid. -/
theorem noteEvents_cons_of_none {note : Annotation} (h : note.param? = none)
    (className method : String) (count : Nat) (notes : List Annotation) :
    noteEvents className method count (note :: notes) =
      (note.error?.map (.malformedTag className (some method))).toList ++
        noteEvents className method count notes := by
  cases note with
  | param typeHint name => cases h
  | result typeHint => cases count <;> rfl
  | method name rendered => cases count <;> rfl
  | invalid error => cases count <;> rfl

/-- Of the events about annotations those that ignore one are about the ones left over. -/
theorem filter_noteEvents (className method : String) (count : Nat) (notes : List Annotation) :
    (noteEvents className method count notes).filter Event.ignoresParam =
      surplusEvents className method count notes := by
  induction notes generalizing count with
  | nil => simp [noteEvents, surplusEvents]
  | cons note notes ih =>
    by_cases hnote : note.param? = none
    · have hquiet : (note.error?.map (Event.malformedTag className (some method))).toList.filter
          Event.ignoresParam = [] := by
        cases note.error? with
        | none => rfl
        | some error => simp [Event.ignoresParam_eq_false]
      rw [noteEvents_cons_of_none hnote, List.filter_append, hquiet, List.nil_append, ih]
      unfold surplusEvents
      rw [paramNotes_cons_of_none hnote]
    · cases note with
      | param typeHint name =>
        cases count with
        | zero =>
          rw [noteEvents, List.filter_cons_of_pos (Event.ignoresParam_surplusParam _ _ _), ih]
          simp [surplusEvents]
        | succ count =>
          rw [noteEvents, ih]
          simp [surplusEvents]
      | _ => exact absurd rfl hnote

/-- Later annotations find as many parameters left as the earlier ones do not use up. -/
theorem noteEvents_append (className method : String) (count : Nat)
    (notes later : List Annotation) : noteEvents className method count (notes ++ later) =
      noteEvents className method count notes ++
        noteEvents className method (count - (paramNotes notes).length) later := by
  induction notes generalizing count with
  | nil => simp [noteEvents]
  | cons note notes ih =>
    rw [List.cons_append]
    by_cases hnote : note.param? = none
    · rw [noteEvents_cons_of_none hnote, noteEvents_cons_of_none hnote, ih, List.append_assoc,
        paramNotes_cons_of_none hnote]
    · cases note with
      | param typeHint name =>
        cases count with
        | zero => simp [noteEvents, ih]
        | succ count => simp [noteEvents, ih]
      | _ => exact absurd rfl hnote

/-- The events of a method that ignore an annotation. -/
theorem filter_methodEvents (docs : DocReader) (className : String) (m : MethodDecl)
    (returnType : String) : (methodEvents docs className m returnType).filter Event.ignoresParam =
      surplusEvents className m.name m.parameters.length
        (usableAnnotations docs m.docComment) := by
  unfold methodEvents usableAnnotations
  rw [List.filter_append]
  have hlast : [Event.resolvedMethod className m.name returnType].filter Event.ignoresParam =
      [] := by
    simp [Event.ignoresParam_eq_false]
  rw [hlast, List.append_nil]
  split
  · simp [surplusEvents, *]
  · simp [surplusEvents, Event.ignoresParam_eq_false, *]
  · rename_i notes hnotes
    rw [hnotes]
    exact filter_noteEvents _ _ _ _

/-! ### One method -/

/-- How the annotations of `m` take part in its signature for `owner`, and what is reported about
them for a class called `className`. -/
structure PairsByPosition (docs : DocReader) (owner : ClassId) (m : MethodDecl)
    (inherited : Option String) (className returnType : String) : Prop where
  /-- There are as many parameters as are declared. -/
  length_eq : (mergeMethod docs owner m inherited).parameters.length = m.parameters.length
  /-- Each is merged with the parameter annotation that has its number, if there is one. -/
  parameter : ∀ (i : Nat) (p : ParameterDecl), m.parameters[i]? = some p →
    ∃ q, (mergeMethod docs owner m inherited).parameters[i]? = some q ∧
      Parameter.Merges p (paramNotes (usableAnnotations docs m.docComment))[i]? q
  /-- The annotations left over are reported as ignored, each once and in order. -/
  reported : ((methodEvents docs className m returnType).filter Event.ignoresParam).map
      (fun event => (event.level, event.message, event.details)) =
    ((paramNotes (usableAnnotations docs m.docComment)).drop m.parameters.length).map fun note =>
      (.debug, "Ignoring @param " ++ note.2 ++ " beyond declared parameters",
        [("class", className), ("method", m.name)])
  /-- Without one of them the signature is the same and its report is missing. -/
  surplus : ∀ (docs' : DocReader) (doc : String) (before after : List Annotation)
    (typeHint name : String), m.docComment = some doc →
    docs doc = .ok (before ++ .param typeHint name :: after) → docs' doc = .ok (before ++ after) →
    m.parameters.length ≤ (paramNotes before).length →
    mergeMethod docs' owner m inherited = mergeMethod docs owner m inherited ∧
      ∃ earlier later, methodEvents docs className m returnType =
          earlier ++ .surplusParam className m.name name :: later ∧
        methodEvents docs' className m returnType = earlier ++ later
  /-- All but the parameters is independent of what parameter annotations there are. -/
  others : ∀ docs' : DocReader, otherNotes (usableAnnotations docs' m.docComment) =
      otherNotes (usableAnnotations docs m.docComment) →
    { mergeMethod docs' owner m inherited with parameters := [] } =
      { mergeMethod docs owner m inherited with parameters := [] }

theorem otherNotes_append_param (before after : List Annotation) (typeHint name : String) :
    otherNotes (before ++ .param typeHint name :: after) = otherNotes (before ++ after) := by
  simp [otherNotes, Annotation.param?]

theorem mergeReturn_congr {notes notes' : List Annotation}
    (h : otherNotes notes' = otherNotes notes) (m : MethodDecl) (inherited : Option String) :
    mergeReturn notes' m inherited = mergeReturn notes m inherited := by
  unfold mergeReturn
  rw [← annotatedReturn_otherNotes, h, annotatedReturn_otherNotes]

/-- A parameter annotation beyond the parameters makes no difference to the signature. -/
theorem mergeMethod_surplus {docs docs' : DocReader} {m : MethodDecl}
    {before after : List Annotation} {typeHint name : String}
    (h : usableAnnotations docs m.docComment = before ++ .param typeHint name :: after)
    (h' : usableAnnotations docs' m.docComment = before ++ after)
    (hcount : m.parameters.length ≤ (paramNotes before).length) (owner : ClassId)
    (inherited : Option String) :
    mergeMethod docs' owner m inherited = mergeMethod docs owner m inherited := by
  have hparams : mergeParams (before ++ after) (m.parameters.map Parameter.ofDecl) =
      mergeParams (before ++ .param typeHint name :: after)
        (m.parameters.map Parameter.ofDecl) := by
    apply mergeParams_congr
    rw [paramNotes_append, paramNotes_append, List.length_map, List.take_append_of_le_length hcount,
      List.take_append_of_le_length hcount]
  simp only [mergeMethod]
  rw [h, h', hparams, mergeReturn_congr (otherNotes_append_param before after typeHint name).symm]

theorem pairsByPosition (docs : DocReader) (owner : ClassId) (m : MethodDecl)
    (inherited : Option String) (className returnType : String) :
    PairsByPosition docs owner m inherited className returnType where
  length_eq := by simp [mergeMethod]
  parameter := by
    intro i p hp
    refine ⟨(Parameter.ofDecl p).noted _, ?_, Parameter.merges_noted p _⟩
    simp only [mergeMethod, getElem?_mergeParams, List.getElem?_map, hp, Option.map_some]
  reported := by
    rw [filter_methodEvents, surplusEvents, List.map_map]
    rfl
  surplus := by
    intro docs' doc before after typeHint name hdoc hnotes hnotes' hcount
    have husable : usableAnnotations docs m.docComment =
        before ++ .param typeHint name :: after := by
      simp [usableAnnotations, hdoc, hnotes]
    have husable' : usableAnnotations docs' m.docComment = before ++ after := by
      simp [usableAnnotations, hdoc, hnotes']
    refine ⟨mergeMethod_surplus husable husable' hcount owner inherited,
      noteEvents className m.name m.parameters.length before,
      noteEvents className m.name 0 after ++ [.resolvedMethod className m.name returnType], ?_, ?_⟩
    · simp [methodEvents, hdoc, hnotes, noteEvents_append, Nat.sub_eq_zero_of_le hcount, noteEvents]
    · simp [methodEvents, hdoc, hnotes', noteEvents_append, Nat.sub_eq_zero_of_le hcount]
  others := by
    intro docs' hsame
    simp only [mergeMethod]
    rw [mergeReturn_congr hsame]

/-! ### Logs -/

/-- What is reported about annotations that the methods of a class leave over. -/
def ClassView.surplusEvents (docs : DocReader) (v : ClassView) : List Event :=
  v.methods.flatMap fun m =>
    ClassSurface.surplusEvents v.name m.name m.parameters.length
      (usableAnnotations docs m.docComment)

/-- What is reported about an entry by the time that it is resolved. -/
def Entry.surplusEvents (docs : DocReader) (e : Entry) : List Event :=
  if e.isResolved then e.view.surplusEvents docs else []

/-- An element that counts for nothing is replaced. -/
theorem flatMap_modify_perm {α β : Type} {f : α → α} {g : α → List β} :
    ∀ {l : List α} {i : Nat} {a : α}, l[i]? = some a → g a = [] →
      ((l.modify i f).flatMap g).Perm (l.flatMap g ++ g (f a))
  | [], i, a, h, _ => by simp at h
  | b :: l, 0, a, h, ha => by
    obtain rfl : b = a := by simpa using h
    simp [ha, List.perm_append_comm]
  | b :: l, i + 1, a, h, ha => by
    have ih := flatMap_modify_perm (f := f) (l := l) (by simpa using h) ha
    simpa using ih.append_left (g b)

namespace Registry

variable {ctx : Context} {docs : DocReader} {r s : Registry}

theorem filter_classDocEvents (docs : DocReader) (className : String) (doc : Option String) :
    (classDocEvents docs className doc).filter Event.ignoresParam = [] := by
  unfold classDocEvents
  split
  · rfl
  · simp [Event.ignoresParam_eq_false]
  · rw [List.filter_map, List.map_eq_nil_iff, List.filter_eq_nil_iff]
    intro error _
    simp [Event.ignoresParam_eq_false]

theorem filter_surfaceEvents (r : Registry) (docs : DocReader) (v : ClassView)
    (ancestors : List ClassId) :
    (r.surfaceEvents docs v ancestors).filter Event.ignoresParam = v.surplusEvents docs := by
  unfold surfaceEvents ClassView.surplusEvents
  rw [List.filter_append, filter_classDocEvents, List.nil_append, List.filter_flatMap]
  simp only [filter_methodEvents]

/-- The events of the log that ignore an annotation are those about the resolved entries. -/
def TellsSurplus (docs : DocReader) (r : Registry) : Prop :=
  (r.log.toList.filter Event.ignoresParam).Perm (r.entries.toList.flatMap (·.surplusEvents docs))

theorem TellsSurplus.congr (h : TellsSurplus docs r) (hentries : s.entries = r.entries)
    (hlog : s.log.toList.filter Event.ignoresParam = r.log.toList.filter Event.ignoresParam) :
    TellsSurplus docs s := by
  unfold TellsSurplus
  rw [hlog, hentries]
  exact h

theorem TellsSurplus.complete (h : TellsSurplus docs r) {id : ClassId} {e : Entry}
    (he : r.entries[id]? = some e) (hopen : e.isResolved = false) (ids : List ClassId) :
    TellsSurplus docs (r.complete docs id e.view ids).leave := by
  have hlog : (r.complete docs id e.view ids).leave.log.toList =
      r.log.toList ++ r.surfaceEvents docs e.view ids := by
    simp [Registry.complete, leave, report]
  have hentries : (r.complete docs id e.view ids).leave.entries.toList = r.entries.toList.modify id
      ({ · with surface := some (r.surface docs id e.view ids) }) := by
    simp [Registry.complete, leave, report]
  have hnothing : e.surplusEvents docs = [] := by simp [Entry.surplusEvents, hopen]
  have hlist : r.entries.toList[id]? = some e := by rwa [Array.getElem?_toList]
  have hperm := flatMap_modify_perm (g := (·.surplusEvents docs))
    (f := ({ · with surface := some (r.surface docs id e.view ids) })) hlist hnothing
  unfold TellsSurplus
  rw [hlog, hentries, List.filter_append, filter_surfaceEvents]
  exact (h.append_right _).trans hperm.symm

/-- A step that completes an entry reports about it, and no other step reports. -/
theorem Step.tellsSurplus (hs : Sound ctx.docs r) (h : Step ctx r s)
    (hr : TellsSurplus ctx.docs r) : TellsSurplus ctx.docs s := by
  cases h with
  | refuse => exact hr.congr rfl rfl
  | accept name view =>
    have hentries : (r.accept name view).entries.toList =
        r.entries.toList ++ [r.newEntry name view] := by
      simp [Registry.accept, countQuery, register]
    have hnothing : (r.newEntry name view).surplusEvents ctx.docs = [] := rfl
    unfold TellsSurplus
    rw [hentries, List.flatMap_append, List.flatMap_singleton, hnothing, List.append_nil]
    exact hr
  | enter id e =>
    refine hr.congr rfl ?_
    have hlog : (r.takeUp id e).log.toList = r.log.toList ++ [.resolving e.name] := by
      simp [takeUp, Registry.enter, report]
    rw [hlog, List.filter_append]
    simp [Event.ignoresParam_eq_false]
  | abandon => exact hr.congr rfl rfl
  | complete id below e ancestors htop he =>
    exact hr.complete he (hs.open_of_top htop he) ancestors
  | render => exact hr.congr rfl rfl

theorem Steps.tellsSurplus (hs : Sound ctx.docs r) (h : Steps ctx r s)
    (hr : TellsSurplus ctx.docs r) : TellsSurplus ctx.docs s := by
  induction h with
  | refl => exact hr
  | tail hsteps hstep ih => exact hstep.tellsSurplus (Steps.sound hs hsteps) ih

theorem Reachable.tellsSurplus {shared : Bool} (h : Reachable ctx shared r) :
    TellsSurplus ctx.docs r :=
  h.steps.tellsSurplus (sound_new _ shared) (.refl [])

/-- **Parameters by position**: whatever a reader makes of documentation, the signature of every
method has the declared parameters, each merged with the parameter annotation of its number; the
annotations left over change nothing and are reported one by one, and nothing but the parameters
depends on parameter annotations. In every registry that any operations lead to, whatever the source
answers and whether entries are shared or not, the methods of a resolved entry are signatures of
this kind, of the last methods of their names in the view; and the log tells of the annotations that
the methods of its resolved entries leave over, of each once and of no others. -/
theorem parameters_by_position (docs : DocReader) :
    (∀ (owner : ClassId) (m : MethodDecl) (inherited : Option String)
      (className returnType : String),
      PairsByPosition docs owner m inherited className returnType) ∧
    ∀ (source : Source) (shared : Bool) (r : Registry), Reachable ⟨source, docs⟩ shared r →
      (∀ (id : ClassId) (e : Entry), r.entries[id]? = some e → r.stateOf id e = .resolved →
        ∀ (name : String) (sig : Signature), e.methods[name]? = some sig →
          ∃ m inherited, e.view.methods.reverse.find? (·.name = name) = some m ∧
            sig = mergeMethod docs id m inherited) ∧
      (r.log.toList.filter Event.ignoresParam).Perm
        (r.entries.toList.flatMap (·.surplusEvents docs)) := by
  refine ⟨pairsByPosition docs, fun source shared r hreach =>
    ⟨fun id e he hres name sig hsig => ?_, hreach.tellsSurplus⟩⟩
  have hsig : e.method? name = some sig := hsig
  rw [hreach.sound.method?_eq he (stateOf_eq_resolved_iff.mp hres), Option.map_eq_some_iff] at hsig
  obtain ⟨m, hm, rfl⟩ := hsig
  exact ⟨m, _, hm, rfl⟩

/-- A method with three parameters, of which the last is variadic. -/
def parcels : Codebase := .ofList
  [{ name := "Parcel"
     methods := [{ name := "send", docComment := some ""
                   parameters := [{ name := "weight", typeHint := some "int" },
                     { name := "to", isOptional := true, default := .string "home" },
                     { name := "notes", isOptional := true, isVariadic := true }] }] }]

/-- Parameter annotations between others: one without name, one without type, two too many. -/
def parcelNotes : List Annotation :=
  [.result "bool", .param "float" "", .method "weigh" "int weigh()", .param "" "address",
    .invalid (.malformed "param" ""), .param "string" "remarks", .param "int" "stamps",
    .result "", .param "" "colour"]

/-- Each parameter has its annotation, and the two annotations left over are told of. -/
theorem parameters_by_position_parcels : ∃ r e sig m inherited,
    Reachable ⟨parcels.source, fun _ => .ok parcelNotes⟩ true r ∧
    r.entries[0]? = some e ∧ r.stateOf 0 e = .resolved ∧ e.methods["send"]? = some sig ∧
    sig.parameters.map Parameter.text =
      ["float $weight", " $address=\"home\"", "string ...$remarks"] ∧
    sig = mergeMethod (fun _ => .ok parcelNotes) 0 m inherited ∧
    PairsByPosition (fun _ => .ok parcelNotes) 0 m inherited "Parcel" "bool" ∧
    r.log.toList.filter Event.ignoresParam =
      [.surplusParam "Parcel" "send" "stamps", .surplusParam "Parcel" "send" "colour"] ∧
    (r.log.toList.filter Event.ignoresParam).Perm
      (r.entries.toList.flatMap (·.surplusEvents fun _ => .ok parcelNotes)) := by
  have hplay : (play ⟨parcels.source, fun _ => .ok parcelNotes⟩ [.request "Parcel"] {}).bind
      (fun p => p.2.entries[0]?.bind fun e => e.methods["send"]?.map fun sig =>
        (p.2.stateOf 0 e, sig.parameters.map Parameter.text,
          p.2.log.toList.filter Event.ignoresParam)) =
      some (.resolved, ["float $weight", " $address=\"home\"", "string ...$remarks"],
        [.surplusParam "Parcel" "send" "stamps", .surplusParam "Parcel" "send" "colour"]) := by
    decide +kernel
  obtain ⟨⟨answers, r⟩, hr, h⟩ := Option.bind_eq_some_iff.mp hplay
  obtain ⟨e, he, h⟩ := Option.bind_eq_some_iff.mp h
  obtain ⟨sig, hm, h⟩ := Option.map_eq_some_iff.mp h
  simp only [Prod.mk.injEq] at h
  obtain ⟨hstate, htexts, hlog⟩ := h
  have hreach : Reachable ⟨parcels.source, fun _ => .ok parcelNotes⟩ true r := ⟨_, answers, hr⟩
  obtain ⟨hpairs, hreachable⟩ := parameters_by_position fun _ => .ok parcelNotes
  obtain ⟨hmethods, hperm⟩ := hreachable parcels.source true r hreach
  obtain ⟨m, inherited, -, hsig⟩ := hmethods 0 e he hstate "send" sig hm
  exact ⟨r, e, sig, m, inherited, hreach, he, hstate, hm, htexts, hsig, hpairs _ _ _ _ _, hlog,
    hperm⟩

end Registry

end ClassSurface
