import ClassSurface.Proofs.Registry.Lockstep
import ClassSurface.Proofs.Registry.Outline
import ClassSurface.Proofs.Registry.WellFormed

/-! # Proofs.Registry.Documentation — documentation decides nothing about structure

Documentation is read in the middle of resolving a class, and what it says goes into the methods. It
may type a result, type and name parameters, and add documented methods. The shape of a method is
what is left of it then.

* `shape_mergeMethod`, `shape_surface`: the shape of a method depends on its declaration alone,
  without documentation.
* `Entry.SameShape`: what entries have in common whose views differ in documentation; the registries
  that hold them take the same course (`sameShape_lockstep`).
* `sameStructure_of_sameFacts`: the same operations on two sources that differ in documentation,
  under any two readers, give the same results and build the same structure.
-/

namespace ClassSurface

/-! ### Declarations without documentation, methods without what documentation can change -/

def MethodDecl.undocumented (m : MethodDecl) : MethodDecl := { m with docComment := none }

/-- The view without the documentation of the class and of its methods. -/
def ClassView.undocumented (v : ClassView) : ClassView :=
  { v with docComment := none, methods := v.methods.map MethodDecl.undocumented }

/-- The sources give the same answers, apart from documentation. -/
structure Source.SameFacts (source source' : Source) : Prop where
  depth : source'.depth = source.depth
  answer : ∀ (query : Nat) (name : String),
    (source'.answer query name).map ClassView.undocumented =
      (source.answer query name).map ClassView.undocumented

/-- The source with the block `doc` on every class and every method. -/
def Source.documented (source : Source) (doc : String) : Source where
  answer := fun query name => (source.answer query name).map fun v =>
    { v with docComment := some doc, methods := v.methods.map (·.documented doc) }
  depth := source.depth

theorem Source.documented_sameFacts (source : Source) (doc : String) :
    source.SameFacts (source.documented doc) where
  depth := rfl
  answer := by
    intro query name
    show ((source.answer query name).map _).map _ = _
    cases source.answer query name with
    | error error => rfl
    | ok v =>
      show Except.ok (ClassView.mk _ _ _ _ _ _) = Except.ok (ClassView.mk _ _ _ _ _ _)
      rw [List.map_map]
      rfl

/-- The parameter without type and name. -/
def Parameter.shape (p : Parameter) : Parameter := { p with typeHint := "", name := "" }

/-- The signature without its return type and without the types and names of its parameters. -/
def Signature.shape (s : Signature) : Signature :=
  { s with parameters := s.parameters.map Parameter.shape, returnType := "" }

/-- Annotations change types and names of parameters only. -/
theorem map_shape_mergeParams (notes : List Annotation) (ps : List Parameter) :
    (mergeParams notes ps).map Parameter.shape = ps.map Parameter.shape := by
  fun_induction mergeParams notes ps with
  | case1 => rfl
  | case2 => rfl
  | case3 typeHint name notes p ps ih =>
    rw [List.map_cons, List.map_cons, ih]
    rfl
  | case4 note notes p ps _ ih => exact ih

/-- The shape of a method depends on its declaration alone, without documentation. -/
theorem shape_mergeMethod (docs : DocReader) (owner : ClassId) (d : MethodDecl)
    (inherited : Option String) :
    (mergeMethod docs owner d inherited).shape =
      (mergeMethod .rejecting owner d.undocumented none).shape := by
  rw [Signature.shape, Signature.shape, mergeMethod, mergeMethod, map_shape_mergeParams,
    map_shape_mergeParams]
  rfl

theorem ClassView.facts_eq {v v' : ClassView} (h : v'.undocumented = v.undocumented) :
    v'.name = v.name ∧ v'.kind = v.kind ∧ v'.parent = v.parent ∧ v'.interfaces = v.interfaces := by
  obtain ⟨hname, hkind, hparent, hinterfaces, -, -⟩ := ClassView.mk.inj h
  exact ⟨hname, hkind, hparent, hinterfaces⟩

/-- Documentation does not matter for finding a method. -/
theorem ClassView.find?_undocumented (v : ClassView) (m : String) :
    v.undocumented.methods.reverse.find? (·.name = m) =
      (v.methods.reverse.find? (·.name = m)).map MethodDecl.undocumented := by
  show (v.methods.map MethodDecl.undocumented).reverse.find? _ = _
  rw [← List.map_reverse, List.find?_map]
  rfl

/-! ### Entries of one shape -/

/-- The entries differ in nothing but documentation and what comes from it. -/
structure Entry.SameShape (e e' : Entry) : Prop where
  id : e'.id = e.id
  requested : e'.requested = e.requested
  view : e'.view.undocumented = e.view.undocumented
  isResolved : e'.isResolved = e.isResolved
  parent : e'.parent = e.parent
  interfaces : e'.interfaces = e.interfaces
  methods : ∀ m, (e'.method? m).map Signature.shape = (e.method? m).map Signature.shape

namespace Entry.SameShape

variable {e e' : Entry} (h : e.SameShape e')
include h

theorem name_eq : e'.name = e.name := (ClassView.facts_eq h.view).1

theorem ancestors_eq : e'.view.ancestors = e.view.ancestors := by
  obtain ⟨-, -, hparent, hinterfaces⟩ := ClassView.facts_eq h.view
  rw [ClassView.ancestors, ClassView.ancestors, hparent, hinterfaces]

theorem header_eq : e'.header = e.header := by
  obtain ⟨hname, -, hparent, hinterfaces⟩ := ClassView.facts_eq h.view
  rw [Entry.header, Entry.header, hname, hparent, hinterfaces]

theorem toList_methods_eq :
    e'.methods.toList.map (fun p => (p.1, p.2.shape)) =
      e.methods.toList.map fun p => (p.1, p.2.shape) :=
  map_toList_eq Signature.shape h.methods

theorem keys_eq : e'.methods.keys = e.methods.keys := by
  have hkeys := congrArg (List.map Prod.fst) h.toList_methods_eq
  rw [List.map_map, List.map_map] at hkeys
  rw [← Std.TreeMap.map_fst_toList_eq_keys, ← Std.TreeMap.map_fst_toList_eq_keys]
  exact hkeys

/-- Which class declares a method belongs to its shape. -/
theorem ownMethods_eq : e'.ownMethods.map Signature.shape = e.ownMethods.map Signature.shape := by
  have hvalues : e'.methods.values.map Signature.shape = e.methods.values.map Signature.shape := by
    have hvalues := congrArg (List.map Prod.snd) h.toList_methods_eq
    rw [List.map_map, List.map_map] at hvalues
    rw [values_eq_map_toList, values_eq_map_toList, List.map_map, List.map_map]
    exact hvalues
  have hown : ∀ e : Entry, e.ownMethods.map Signature.shape =
      (e.methods.values.map Signature.shape).filter (·.declaringClass = e.name) := by
    intro e
    rw [List.filter_map, Entry.ownMethods]
    rfl
  rw [hown, hown, hvalues, h.name_eq]

end Entry.SameShape

/-- The entries have the same structure: they may differ in return types, in types and names of
parameters, and in documented methods. -/
structure Entry.SameStructure (e e' : Entry) : Prop where
  id : e'.id = e.id
  name : e'.name = e.name
  kind : e'.view.kind = e.view.kind
  parent : e'.parent = e.parent
  interfaces : e'.interfaces = e.interfaces
  header : e'.header = e.header
  methodNames : e'.methods.keys = e.methods.keys
  ownMethods : e'.ownMethods.map (·.name) = e.ownMethods.map (·.name)
  method : ∀ {m : String} {sig sig' : Signature}, e.methods[m]? = some sig →
    e'.methods[m]? = some sig' → sig'.shape = sig.shape

theorem Entry.SameShape.sameStructure {e e' : Entry} (h : e.SameShape e') :
    e.SameStructure e' where
  id := h.id
  name := h.name_eq
  kind := (ClassView.facts_eq h.view).2.1
  parent := h.parent
  interfaces := h.interfaces
  header := h.header_eq
  methodNames := h.keys_eq
  ownMethods := by
    have hnames := congrArg (List.map Signature.name) h.ownMethods_eq
    rw [List.map_map, List.map_map] at hnames
    exact hnames
  method := by
    intro m sig sig' hm hm'
    have hshape : e'.methods[m]?.map Signature.shape = e.methods[m]?.map Signature.shape :=
      h.methods m
    rw [hm, hm'] at hshape
    exact Option.some.inj hshape

namespace Registry

variable {r r' : Registry} {source source' : Source} {docs docs' : DocReader}

/-- The shapes of the methods of a surface depend on the view alone, without documentation. -/
theorem shape_surface (id : ClassId) (v : ClassView) (ids : List ClassId) (m : String) :
    ((r.surface docs id v ids).methods[m]?).map Signature.shape =
      (v.undocumented.methods.reverse.find? (·.name = m)).map fun d =>
        (mergeMethod .rejecting id d none).shape := by
  rw [getElem?_methods_surface, v.find?_undocumented, Option.map_map, Option.map_map]
  congr 1
  funext d
  exact shape_mergeMethod docs id d _

/-- Entries keep to one shape when they are given the surfaces of entries of one shape. -/
theorem sameShape_complete {o o' e e' : Entry} (ho : o.SameShape o') (he : e.SameShape e')
    (id : ClassId) (ids : List ClassId) :
    Entry.SameShape { o with surface := some (r.surface docs id e.view ids) }
      { o' with surface := some (r'.surface docs' id e'.view ids) } := by
  obtain ⟨-, -, hparent, -⟩ := ClassView.facts_eq he.view
  refine ⟨ho.id, ho.requested, ho.view, rfl, ?_, ?_, fun m => ?_⟩
  · show (ids.take e'.view.parent.toList.length).head? = _
    rw [hparent]
    rfl
  · show ids.drop e'.view.parent.toList.length = _
    rw [hparent]
    rfl
  · show ((r'.surface docs' id e'.view ids).methods[m]?).map _ =
      ((r.surface docs id e.view ids).methods[m]?).map _
    rw [shape_surface, shape_surface, he.view]

/-- Registries whose sources differ in documentation take the same course, whatever the texts. -/
theorem sameShape_lockstep (h : source.SameFacts source') (docs docs' : DocReader) :
    Lockstep ⟨source, docs⟩ ⟨source', docs'⟩ Entry.SameShape fun _ _ => True where
  depth := h.depth
  answer := by
    intro query name
    have hanswer := h.answer query name
    revert hanswer
    generalize source.answer query name = answer
    generalize source'.answer query name = answer'
    intro hanswer
    match answer, answer', hanswer with
    | .error error, .error error', hanswer =>
      cases hanswer
      exact .refused error
    | .ok v, .ok v', hanswer =>
      exact .given fun _ => ⟨rfl, rfl, Except.ok.inj hanswer, rfl, rfl, rfl, fun _ => rfl⟩
  requested := fun he => he.requested
  name := fun he => he.name_eq
  ancestors := fun he => he.ancestors_eq
  isResolved := fun he => he.isResolved
  complete := fun id ids _ ho he => sameShape_complete ho he id ids
  text_nil := trivial
  text := fun _ => trivial
  text_append := fun _ _ => trivial

/-! ### Two runs -/

/-- The registries have the same structure: apart from what their entries may differ in, they may
differ in their logs. -/
structure SameStructure (r r' : Registry) : Prop where
  size : r'.size = r.size
  index : ∀ name : String, r'.idOf? name = r.idOf? name
  rendered : r'.rendered = r.rendered
  queries : r'.queries = r.queries
  state : ∀ {id : ClassId} {e e' : Entry}, r.entries[id]? = some e → r'.entries[id]? = some e' →
    r'.stateOf id e' = r.stateOf id e
  entries : ∀ {id : ClassId} {e e' : Entry}, r.entries[id]? = some e → r'.entries[id]? = some e' →
    e.SameStructure e'

theorem Alike.sameStructure (h : source.SameFacts source') (hr : Alike Entry.SameShape r r') :
    SameStructure r r' := by
  have hshape : ∀ {id : ClassId} {e e' : Entry}, r.entries[id]? = some e →
      r'.entries[id]? = some e' → e.SameShape e' := by
    intro id e e' he he'
    obtain ⟨e₁, he₁, hR⟩ := hr.entries he
    cases he'.symm.trans he₁
    exact hR
  refine ⟨hr.size, hr.idOf?_eq (sameShape_lockstep h .rejecting .rejecting), hr.rendered,
    hr.queries, fun he he' => ?_, fun he he' => (hshape he he').sameStructure⟩
  rw [stateOf, stateOf, (hshape he he').isResolved, hr.stack]

/-- Documentation decides nothing about structure. Let two sources give the same answers apart from
documentation, and let there be any two readers of documentation. Then any operations on new
registries give the same results, texts apart, and lead to registries of the same structure; or
neither comes to an end, which is not so if the source is steady, knows finitely many names and lets
requests nest deep enough. -/
theorem sameStructure_of_sameFacts (source source' : Source) (h : source.SameFacts source')
    (docs docs' : DocReader) (shared : Bool) (ops : List Op) :
    ((play ⟨source, docs⟩ ops { shared } = none ∧ play ⟨source', docs'⟩ ops { shared } = none) ∨
      ∃ answers r answers' r', play ⟨source, docs⟩ ops { shared } = some (answers, r) ∧
        play ⟨source', docs'⟩ ops { shared } = some (answers', r') ∧
        List.Forall₂ (ResultsAlike (Answer.Alike fun _ _ => True)) answers answers' ∧
        SameStructure r r') ∧
    ∀ view names, Bounded ⟨source, docs⟩ view names →
      (play ⟨source, docs⟩ ops { shared }).isSome := by
  have hnew : Alike Entry.SameShape { shared } { shared } :=
    ⟨rfl, rfl, fun he => by simp at he, rfl, rfl, rfl⟩
  refine ⟨?_, fun view names hb => ?_⟩
  · rcases play_paired (sameShape_lockstep h docs docs') ops hnew with
      hnone | ⟨answers, r, answers', r', hplay, hplay', hanswers, hr⟩
    · exact .inl hnone
    · exact .inr ⟨answers, r, answers', r', hplay, hplay', hanswers, hr.sameStructure h⟩
  · have hs : SteadySound docs view { shared } := steadySound_of_empty rfl rfl rfl
    obtain ⟨answers, r, hplay⟩ := exists_play_eq_some hb ops hs
    exact Option.isSome_iff_exists.mpr ⟨_, hplay⟩

/-- A class that cannot be resolved at first: with and without documentation there are two entries
after the second attempt, and only the return type of its method differs. -/
theorem sameStructure_after_retry : ∃ answers r answers' r',
    play ⟨latecomer, .rejecting⟩ [.request "Shop", .document ["Shop"] (.only "Sh")]
      { shared := true } = some (answers, r) ∧
    play ⟨latecomer.documented "@return Engine", fun _ => .ok [.result "Engine"]⟩
      [.request "Shop", .document ["Shop"] (.only "Sh")] { shared := true } = some (answers', r') ∧
    r.size = 2 ∧ (r.method? 0 "boot").map (·.returnType) = some "???" ∧
    (r'.method? 0 "boot").map (·.returnType) = some "Engine" ∧
    List.Forall₂ (ResultsAlike (Answer.Alike fun _ _ => True)) answers answers' ∧
    SameStructure r r' := by
  have hrun : (play ⟨latecomer, .rejecting⟩ [.request "Shop", .document ["Shop"] (.only "Sh")]
      { shared := true }).map
        (fun p => (p.2.size, (p.2.method? 0 "boot").map (·.returnType))) =
      some (2, some "???") := by
    decide +kernel
  have hrun' : (play ⟨latecomer.documented "@return Engine", fun _ => .ok [.result "Engine"]⟩
      [.request "Shop", .document ["Shop"] (.only "Sh")] { shared := true }).map
        (fun p => (p.2.method? 0 "boot").map (·.returnType)) = some (some "Engine") := by
    decide +kernel
  obtain ⟨⟨answers, r⟩, hplay, heq⟩ := Option.map_eq_some_iff.mp hrun
  obtain ⟨⟨answers', r'⟩, hplay', hreturn'⟩ := Option.map_eq_some_iff.mp hrun'
  obtain ⟨hsize, hreturn⟩ := Prod.mk.inj heq
  rcases (sameStructure_of_sameFacts _ _ (latecomer.documented_sameFacts "@return Engine")
      .rejecting (fun _ => .ok [.result "Engine"]) true
      [.request "Shop", .document ["Shop"] (.only "Sh")]).1 with
    ⟨hnone, -⟩ | ⟨_, _, _, _, hboth, hboth', hanswers, hsame⟩
  · cases hplay.symm.trans hnone
  · cases hplay.symm.trans hboth
    cases hplay'.symm.trans hboth'
    exact ⟨answers, r, answers', r', hplay, hplay', hsize, hreturn, hreturn', hanswers, hsame⟩

end Registry

end ClassSurface
