import ClassSurface.Proofs.Project.Sharing
import ClassSurface.Proofs.Registry.Documentation

/-! # Proofs.Registry.UnusableDocs — documentation that cannot be read might as well not be there

A block that the reader rejects contributes nothing, and neither does a tag that cannot be read, in
a block that can. So the reading of a view, which is the view without documentation next to the
annotations that its blocks come to, decides all that a registry makes of it.

* `mergeParams_filter`: an invalid tag does not take part in pairing annotations with parameters.
* `surface_eq_of_reading`: views of one reading make one surface.
* `SameReadings.sameCourse`: sources that are read alike lead to the same results, the same entries
  apart from their documentation, and the same documents.
* `unusable_docs_ignored`: this is so of a source without its rejected blocks, and of a reader that
  leaves out invalid tags.
-/

namespace ClassSurface

/-! ### Tags that cannot be read -/

def Annotation.isValid : Annotation → Bool
  | .invalid _ => false
  | _ => true

/-- An invalid tag does not take part in pairing annotations with parameters. -/
theorem mergeParams_filter (notes : List Annotation) (ps : List Parameter) :
    mergeParams (notes.filter Annotation.isValid) ps = mergeParams notes ps := by
  induction notes generalizing ps with
  | nil => rfl
  | cons note notes ih =>
    cases ps with
    | nil => simp [mergeParams]
    | cons p ps => cases note <;> simp [List.filter_cons, Annotation.isValid, mergeParams, ih]

/-- What an annotation contributes in some way, and an invalid tag does not, can be collected
without the invalid tags. -/
theorem filterMap_filter_isValid {α : Type} {f : Annotation → Option α}
    (hf : ∀ error, f (.invalid error) = none) (notes : List Annotation) :
    (notes.filter Annotation.isValid).filterMap f = notes.filterMap f := by
  induction notes with
  | nil => rfl
  | cons note notes ih =>
    cases note <;> simp [List.filter_cons, Annotation.isValid, List.filterMap_cons, ih, hf]

theorem mergeReturn_filter (notes : List Annotation) (m : MethodDecl) (inherited : Option String) :
    mergeReturn (notes.filter Annotation.isValid) m inherited = mergeReturn notes m inherited := by
  have hannotated : annotatedReturn (notes.filter Annotation.isValid) = annotatedReturn notes := by
    rw [annotatedReturn, annotatedReturn, filterMap_filter_isValid fun _ => rfl]
  rw [mergeReturn, mergeReturn, hannotated]

/-! ### Readings -/

/-- What a block comes to: its annotations without invalid tags, and nothing if it is rejected. -/
def readings (docs : DocReader) (doc : Option String) : List Annotation :=
  (usableAnnotations docs doc).filter Annotation.isValid

/-- A declaration without documentation, and what its documentation comes to. -/
def MethodDecl.reading (docs : DocReader) (m : MethodDecl) : MethodDecl × List Annotation :=
  (m.undocumented, readings docs m.docComment)

/-- A view without documentation, and what the blocks of the class and of its methods come to. -/
def ClassView.reading (docs : DocReader) (v : ClassView) :
    ClassView × List Annotation × List (MethodDecl × List Annotation) :=
  (v.undocumented, readings docs v.docComment, v.methods.map (MethodDecl.reading docs))

/-- A declaration is merged as its reading is, put into a block of its own. -/
theorem mergeMethod_eq_of_reading (docs : DocReader) (owner : ClassId) (m : MethodDecl)
    (inherited : Option String) :
    mergeMethod docs owner m inherited =
      mergeMethod (fun _ => .ok (m.reading docs).2) owner ((m.reading docs).1.documented "")
        inherited := by
  have hparams : mergeParams (m.reading docs).2 (m.parameters.map Parameter.ofDecl) =
      mergeParams (usableAnnotations docs m.docComment) (m.parameters.map Parameter.ofDecl) :=
    mergeParams_filter _ _
  have hreturn : mergeReturn (m.reading docs).2 m inherited =
      mergeReturn (usableAnnotations docs m.docComment) m inherited := mergeReturn_filter _ _ _
  rw [mergeMethod, ← hparams, ← hreturn]
  rfl

/-! ### Sources and readers -/

/-- The reader that leaves out invalid tags. -/
def DocReader.withoutInvalid (docs : DocReader) : DocReader :=
  fun doc => (docs doc).map (·.filter Annotation.isValid)

/-- The block, unless the reader rejects it. -/
def DocReader.accepted? (docs : DocReader) (doc : Option String) : Option String :=
  doc.filter fun text => (docs text).isOk

/-- The view without the blocks that the reader rejects. -/
def ClassView.pruned (docs : DocReader) (v : ClassView) : ClassView :=
  { v with
    docComment := docs.accepted? v.docComment
    methods := v.methods.map fun m => { m with docComment := docs.accepted? m.docComment } }

/-- The source without the blocks that the reader rejects. -/
def Source.pruned (docs : DocReader) (source : Source) : Source :=
  { source with answer := fun query name => (source.answer query name).map (ClassView.pruned docs) }

/-- The source without documentation. -/
def Source.undocumented (source : Source) : Source :=
  { source with
    answer := fun query name => (source.answer query name).map ClassView.undocumented }

/-- The sources give answers that are read alike, each by its reader. -/
structure Context.SameReadings (ctx ctx' : Context) : Prop where
  depth : ctx'.source.depth = ctx.source.depth
  answer : ∀ (query : Nat) (name : String),
    (ctx'.source.answer query name).map (ClassView.reading ctx'.docs) =
      (ctx.source.answer query name).map (ClassView.reading ctx.docs)

theorem readings_withoutInvalid (docs : DocReader) (doc : Option String) :
    readings docs.withoutInvalid doc = readings docs doc := by
  rw [readings, readings, usableAnnotations, usableAnnotations]
  cases doc with
  | none => rfl
  | some text =>
    rw [Option.map_some, Option.map_some, DocReader.withoutInvalid]
    cases docs text with
    | error error => rfl
    | ok notes => exact List.filter_filter.trans (by simp)

theorem readings_accepted? (docs : DocReader) (doc : Option String) :
    readings docs (docs.accepted? doc) = readings docs doc := by
  cases doc with
  | none => rfl
  | some text =>
    cases h : docs text with
    | error error =>
      simp [readings, usableAnnotations, DocReader.accepted?, Option.filter, h, Except.isOk,
        Except.toBool]
    | ok notes =>
      simp [readings, usableAnnotations, DocReader.accepted?, Option.filter, h, Except.isOk,
        Except.toBool]

theorem readings_of_rejected {docs : DocReader} (h : ∀ text, (docs text).isOk = false)
    (doc : Option String) : readings docs doc = [] := by
  cases doc with
  | none => rfl
  | some text =>
    have herror := h text
    cases htext : docs text with
    | error error => simp [readings, usableAnnotations, htext]
    | ok notes => simp [htext, Except.isOk, Except.toBool] at herror

theorem sameReadings_pruned (source : Source) (docs : DocReader) :
    Context.SameReadings ⟨source, docs⟩ ⟨source.pruned docs, docs⟩ where
  depth := rfl
  answer := by
    intro query name
    show ((source.answer query name).map _).map _ = _
    cases source.answer query name with
    | error error => rfl
    | ok v =>
      simp only [Except.map, ClassView.reading, ClassView.pruned, ClassView.undocumented,
        List.map_map, readings_accepted?, Except.ok.injEq, Prod.mk.injEq, ClassView.mk.injEq,
        true_and]
      refine ⟨List.map_congr_left fun m _ => rfl, List.map_congr_left fun m _ => ?_⟩
      simp only [Function.comp_apply, MethodDecl.reading, MethodDecl.undocumented,
        readings_accepted?]

theorem sameReadings_withoutInvalid (source : Source) (docs : DocReader) :
    Context.SameReadings ⟨source, docs⟩ ⟨source, docs.withoutInvalid⟩ where
  depth := rfl
  answer := by
    intro query name
    have hmethod : MethodDecl.reading docs.withoutInvalid = MethodDecl.reading docs := by
      funext m
      rw [MethodDecl.reading, MethodDecl.reading, readings_withoutInvalid]
    have hreading : ClassView.reading docs.withoutInvalid = ClassView.reading docs := by
      funext v
      rw [ClassView.reading, ClassView.reading, readings_withoutInvalid, hmethod]
    show (source.answer query name).map (ClassView.reading docs.withoutInvalid) = _
    rw [hreading]

theorem sameReadings_undocumented (source : Source) {docs : DocReader}
    (h : ∀ text, (docs text).isOk = false) (docs' : DocReader) :
    Context.SameReadings ⟨source, docs⟩ ⟨source.undocumented, docs'⟩ where
  depth := rfl
  answer := by
    intro query name
    have hnone : readings docs' none = [] := rfl
    show ((source.answer query name).map _).map _ = _
    cases source.answer query name with
    | error error => rfl
    | ok v =>
      simp only [Except.map, ClassView.reading, ClassView.undocumented, List.map_map,
        readings_of_rejected h, hnone, Except.ok.injEq, Prod.mk.injEq, ClassView.mk.injEq,
        true_and]
      refine ⟨List.map_congr_left fun m _ => rfl, List.map_congr_left fun m _ => ?_⟩
      simp only [Function.comp_apply, MethodDecl.reading, MethodDecl.undocumented,
        readings_of_rejected h, hnone]

/-! ### Entries and registries without documentation -/

def Entry.undocumented (e : Entry) : Entry := { e with view := e.view.undocumented }

/-- The registry without the documentation of its entries and without its log. -/
def Registry.undocumented (r : Registry) : Registry :=
  { r with entries := r.entries.map Entry.undocumented, log := #[] }

/-- The text of a class does not show its documentation. -/
@[simp] theorem Entry.text_undocumented (e : Entry) : e.undocumented.text = e.text := rfl

theorem Stats.collect_undocumented (r : Registry) :
    Stats.collect r.undocumented = Stats.collect r := by
  have hshown : r.undocumented.renderedEntries.map (·.2) =
      (r.renderedEntries.map (·.2)).map Entry.undocumented := by
    rw [Registry.renderedEntries, Registry.renderedEntries, List.map_filterMap, List.map_filterMap,
      List.map_filterMap]
    refine List.filterMap_congr fun id _ => ?_
    show ((r.entries.map Entry.undocumented)[id]?.map _).map _ = _
    rw [Array.getElem?_map, Option.map_map, Option.map_map, Option.map_map, Option.map_map]
    rfl
  have hsize : r.undocumented.size = r.size := Array.size_map
  rw [Stats.collect, Stats.collect, hshown, hsize]
  simp only [total_map, List.length_map]
  rfl

namespace Registry

variable {ctx ctx' : Context} {r r' : Registry} {docs docs' : DocReader}

/-- The entries differ in documentation alone, and are read alike. -/
structure SameReading (docs docs' : DocReader) (e e' : Entry) : Prop where
  undocumented : e'.undocumented = e.undocumented
  reading : e'.view.reading docs' = e.view.reading docs

theorem SameReading.facts {e e' : Entry} (h : SameReading docs docs' e e') :
    e'.id = e.id ∧ e'.requested = e.requested ∧ e'.view.undocumented = e.view.undocumented ∧
      e'.surface = e.surface := by
  obtain ⟨hid, hreq, hview, hsurface⟩ := Entry.mk.inj h.undocumented
  exact ⟨hid, hreq, hview, hsurface⟩

/-- Entries that differ in documentation alone have the same methods. -/
theorem Alike.method?_eq (hr : Alike (SameReading docs docs') r r') (id : ClassId) :
    r'.method? id = r.method? id := by
  funext m
  rw [method?, method?]
  rcases hr.entries_cases id with ⟨he, he'⟩ | ⟨e, e', he, he', hR⟩
  · rw [he, he']
  · rw [he, he', Option.bind_some, Option.bind_some, Entry.method?, Entry.method?, Entry.methods,
      Entry.methods, hR.facts.2.2.2]

/-- Views of one reading make one surface. -/
theorem surface_eq_of_reading (hmethod : ∀ id, r'.method? id = r.method? id) {v v' : ClassView}
    (hv : v'.reading docs' = v.reading docs) (id : ClassId) (ids : List ClassId) :
    r'.surface docs' id v' ids = r.surface docs id v ids := by
  obtain ⟨hfacts, hrest⟩ := Prod.mk.inj hv
  obtain ⟨hdoc, hmethods⟩ := Prod.mk.inj hrest
  obtain ⟨-, -, hparent, -⟩ := ClassView.facts_eq hfacts
  -- a signature depends on the reading of its declaration alone
  have hsignatures : ∀ (r : Registry) (docs : DocReader) (v : ClassView),
      r.signatures docs id v ids = (v.methods.map (MethodDecl.reading docs)).map fun m =>
        mergeMethod (fun _ => .ok m.2) id (m.1.documented "") (r.inheritedReturn ids m.1.name) := by
    intro r docs v
    rw [signatures, List.map_map]
    exact List.map_congr_left fun m _ => mergeMethod_eq_of_reading docs id m _
  have hinherited : ∀ m, r'.inheritedReturn ids m = r.inheritedReturn ids m :=
    inheritedReturn_congr fun a _ => hmethod a
  have hdynamic : (usableAnnotations docs' v'.docComment).filterMap Annotation.method? =
      (usableAnnotations docs v.docComment).filterMap Annotation.method? :=
    calc (usableAnnotations docs' v'.docComment).filterMap Annotation.method?
      _ = (readings docs' v'.docComment).filterMap Annotation.method? :=
        (filterMap_filter_isValid (fun _ => rfl) _).symm
      _ = (readings docs v.docComment).filterMap Annotation.method? := by rw [hdoc]
      _ = _ := filterMap_filter_isValid (fun _ => rfl) _
  rw [surface, surface, hparent, hdynamic, hsignatures, hsignatures, hmethods]
  simp only [hinherited]

/-- Registries whose sources are read alike take the same course. -/
theorem sameReading_lockstep (h : ctx.SameReadings ctx') :
    Lockstep ctx ctx' (SameReading ctx.docs ctx'.docs) Eq where
  depth := h.depth
  answer := by
    intro query name
    have hanswer := h.answer query name
    revert hanswer
    generalize ctx.source.answer query name = answer
    generalize ctx'.source.answer query name = answer'
    intro hanswer
    match answer, answer', hanswer with
    | .error error, .error error', hanswer =>
      cases hanswer
      exact .refused error
    | .ok v, .ok v', hanswer =>
      have hreading : v'.reading ctx'.docs = v.reading ctx.docs := Except.ok.inj hanswer
      have hfacts : v'.undocumented = v.undocumented := congrArg Prod.fst hreading
      exact .given fun _ => ⟨by simp only [Entry.undocumented, hfacts], hreading⟩
  requested := fun he => he.facts.2.1
  name := fun he => (ClassView.facts_eq he.facts.2.2.1).1
  ancestors := by
    intro e e' he
    obtain ⟨-, -, hparent, hinterfaces⟩ := ClassView.facts_eq he.facts.2.2.1
    rw [ClassView.ancestors, ClassView.ancestors, hparent, hinterfaces]
  isResolved := by
    intro e e' he
    rw [Entry.isResolved, Entry.isResolved, he.facts.2.2.2]
  complete := by
    intro r r' o o' e e' id ids hr ho he
    obtain ⟨hid, hreq, hview, -⟩ := ho.facts
    refine ⟨?_, ho.reading⟩
    simp only [Entry.undocumented, hid, hreq, hview, surface_eq_of_reading hr.method?_eq he.reading]
  text_nil := rfl
  text := by
    intro e e' he
    rw [← e.text_undocumented, ← he.undocumented, e'.text_undocumented]
  text_append := by
    rintro a a' b b' rfl rfl
    rfl

/-! ### Two runs -/

/-- Registries with entries that differ in documentation alone are the same without it. -/
theorem Alike.undocumented_eq (hr : Alike (SameReading docs docs') r r') :
    r'.undocumented = r.undocumented := by
  have hentries : r'.entries.map Entry.undocumented = r.entries.map Entry.undocumented := by
    refine Array.ext_getElem? fun id => ?_
    rw [Array.getElem?_map, Array.getElem?_map]
    rcases hr.entries_cases id with ⟨he, he'⟩ | ⟨e, e', he, he', hR⟩
    · rw [he, he']
    · rw [he, he', Option.map_some, Option.map_some, hR.undocumented]
  rw [Registry.undocumented, Registry.undocumented, hentries, hr.shared, hr.stack, hr.rendered,
    hr.queries]

theorem Answer.Alike.eq {a a' : Answer} (h : Answer.Alike Eq a a') : a' = a := by
  cases h with
  | entry id => rfl
  | done => rfl
  | text h => rw [h]
  | noEntry => rfl

theorem ResultsAlike.eq {α : Type} {P : α → α → Prop} (hP : ∀ {a a'}, P a a' → a' = a)
    {res res' : Except ResolveError α} (h : ResultsAlike P res res') : res' = res := by
  cases h with
  | error error => rfl
  | ok h => rw [hP h]

end Registry

open Registry

/-- What any operations, and any run, come to is the same in both contexts: the same results, the
same registry apart from documentation and log, the same report; or neither comes to an end. -/
structure Context.SameCourse (ctx ctx' : Context) : Prop where
  play : ∀ (shared : Bool) (ops : List Op),
    (play ctx' ops { shared }).map (fun p => (p.1, p.2.undocumented)) =
      (play ctx ops { shared }).map fun p => (p.1, p.2.undocumented)
  run : ∀ (settings : Settings) (classes : Except SourceError (List String)),
    (Project.run settings classes ctx').map (·.1) = (Project.run settings classes ctx).map (·.1)

/-- Sources that are read alike lead to the same results, registries and reports. -/
theorem Context.SameReadings.sameCourse {ctx ctx' : Context} (h : ctx.SameReadings ctx') :
    ctx.SameCourse ctx' where
  play := by
    intro shared ops
    have hnew : Alike (SameReading ctx.docs ctx'.docs) { shared } { shared } :=
      ⟨rfl, rfl, fun he => by simp at he, rfl, rfl, rfl⟩
    rcases play_paired (sameReading_lockstep h) ops hnew with
      ⟨hnone, hnone'⟩ | ⟨answers, r, answers', r', hplay, hplay', hall, hr⟩
    · rw [hnone, hnone']
    · have hanswers : answers' = answers :=
        (List.forall₂_eq_eq_eq ▸ hall.flip.imp fun _ _ hres => hres.eq fun ha => ha.eq :
          answers' = answers)
      rw [hplay, hplay', Option.map_some, Option.map_some, hanswers, hr.undocumented_eq]
  run := by
    intro settings classes
    cases classes with
    | error cause => rfl
    | ok classes =>
      have hnew : Alike (SameReading ctx.docs ctx'.docs) (Project.newRegistry settings classes)
          (Project.newRegistry settings classes) :=
        ⟨rfl, rfl, fun he => by simp [Project.newRegistry] at he, rfl, rfl, rfl⟩
      have hdoc := document_paired (sameReading_lockstep h) settings.scope classes hnew
      rw [Project.newRegistry] at hdoc
      rw [Project.run, Project.run]
      revert hdoc
      generalize document ctx settings.scope classes _ = o
      generalize document ctx' settings.scope classes _ = o'
      intro hdoc
      cases hdoc with
      | endless => rfl
      | @ended _ _ r r' hres hr =>
        cases hres with
        | error error => rfl
        | ok htext =>
          have hstats : Stats.collect r' = Stats.collect r := by
            rw [← Stats.collect_undocumented, hr.undocumented_eq, Stats.collect_undocumented]
          simp only [Option.map_some, htext, hstats]

/-- Documentation that cannot be used is as good as none. Whatever is done, with sharing or without,
comes to the same if the blocks that the reader rejects are not there, and if the reader leaves out
the tags that it cannot read. A reader that rejects every block gets no more out of a source than
any reader does without documentation, and an invalid tag does not shift the parameter annotations
around it. If the source is steady, knows finitely many names and lets requests nest deep enough,
then any operations do come to an end. -/
theorem unusable_docs_ignored (source : Source) (docs : DocReader) :
    Context.SameCourse ⟨source, docs⟩ ⟨source.pruned docs, docs⟩ ∧
    Context.SameCourse ⟨source, docs⟩ ⟨source, docs.withoutInvalid⟩ ∧
    ((∀ text, (docs text).isOk = false) →
      ∀ docs', Context.SameCourse ⟨source, docs⟩ ⟨source.undocumented, docs'⟩) ∧
    (∀ before after error ps,
      mergeParams (before ++ .invalid error :: after) ps = mergeParams (before ++ after) ps) ∧
    ∀ view names shared ops, Bounded ⟨source, docs⟩ view names →
      (play ⟨source, docs⟩ ops { shared }).isSome := by
  refine ⟨(sameReadings_pruned source docs).sameCourse,
    (sameReadings_withoutInvalid source docs).sameCourse,
    fun h docs' => (sameReadings_undocumented source h docs').sameCourse,
    fun before after error ps => ?_, fun view names shared ops hb => ?_⟩
  · rw [← mergeParams_filter (before ++ .invalid error :: after),
      ← mergeParams_filter (before ++ after), List.filter_append, List.filter_append,
      List.filter_cons_of_neg (by simp [ Annotation.isValid])]
  · have hs : SteadySound docs view { shared } := steadySound_of_empty rfl rfl rfl
    obtain ⟨answers, r, hplay⟩ := exists_play_eq_some hb ops hs
    exact Option.isSome_iff_exists.mpr ⟨_, hplay⟩

/-- A class whose own block, and that of one of its methods, `choosy` rejects. -/
def questionnaire : Codebase := .ofList
  [{ name := "Form", docComment := some "?", methods :=
    [{ name := "fill", docComment := some "!", parameters := [{ name := "a" }, { name := "b" }] },
      { name := "clear", docComment := some "?" }] }]

/-- The reader that rejects one block, and finds an invalid tag between two good ones elsewhere. -/
def choosy : DocReader := fun doc =>
  if doc = "?" then .error (.malformed "block" doc)
  else .ok [.param "int" "", .invalid (.malformed "param" doc), .param "text" ""]

/-- The document that is written of the class. -/
def written (ctx : Context) : Option (Except Project.RunError String) :=
  (Project.run { included := [""] } (.ok ["Form"]) ctx).map (·.1.map (·.document))

/-- Both ways to leave out what cannot be used give the document that is written with it: the second
parameter is typed by the annotation after the invalid one. A reader that rejects all blocks gives
the document of a class without documentation. -/
theorem unusable_docs_ignored_questionnaire :
    written (questionnaire.context choosy) =
      some (.ok "Form\n??? public clear()\n??? public fill(int $a, text $b)\n\n") ∧
    written ⟨questionnaire.source.pruned choosy, choosy⟩ =
      written (questionnaire.context choosy) ∧
    written ⟨questionnaire.source, choosy.withoutInvalid⟩ =
      written (questionnaire.context choosy) ∧
    written (questionnaire.context .rejecting) =
      some (.ok "Form\n??? public clear()\n??? public fill( $a,  $b)\n\n") ∧
    written ⟨questionnaire.source.undocumented, choosy⟩ =
      written (questionnaire.context .rejecting) ∧
    (play (questionnaire.context choosy) [.request "Form"] { shared := false }).isSome := by
  have hsame : ∀ {ctx ctx' : Context}, ctx.SameCourse ctx' → written ctx' = written ctx := by
    intro ctx ctx' h
    have hrun := h.run { included := [""] } (.ok ["Form"])
    have hdoc := congrArg (Option.map (Except.map Project.Report.document)) hrun
    rw [Option.map_map, Option.map_map] at hdoc
    exact hdoc
  obtain ⟨hpruned, hvalid, -, -, hends⟩ := unusable_docs_ignored questionnaire.source choosy
  obtain ⟨-, -, hnone, -⟩ := unusable_docs_ignored questionnaire.source .rejecting
  refine ⟨?_, hsame hpruned, hsame hvalid, ?_, hsame (hnone (fun _ => rfl) choosy),
    hends _ _ false [.request "Form"] (questionnaire.bounded choosy)⟩
  · decide +kernel
  · decide +kernel

end ClassSurface
