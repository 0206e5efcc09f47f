import ClassSurface.Proofs.Registry.Inheritance

/-! # Proofs.Registry.ReturnTypes — what a method returns, told class by class

A return type is settled while the class is resolved, from documentation, from the declaration, or
from entries of ancestors that were completed before. `Returns` tells it without a registry: by
rules over the views that a source gives, where a method without a type of its own returns what it
returns on the first ancestor that shows it.

* `MethodDecl.Gives.mergeReturn_eq`, `mergeReturn_of_not_gives`: what a declaration and its
  documentation come to, with and without a type of their own.
* `Sound.findSome?_method?_cases`: among resolved ancestors, the first entry that has a method is
  the one of the first name whose view shows it.
* `Sound.returns_iff`: in every registry over a steady source, the return type of a method is the
  one that the rules give, and they give no other.
-/

namespace ClassSurface

/-! ### The rules -/

/-- Of the annotations that give a return type, the last one gives `t`. -/
def Annotation.LastResult (notes : List Annotation) (t : String) : Prop :=
  ∃ before after, notes = before ++ .result t :: after ∧ t ≠ "" ∧
    ∀ u, Annotation.result u ∈ after → u = ""

/-- The documentation of `m` can be read, and the last return type in it is `t`. -/
def MethodDecl.Documents (docs : DocReader) (m : MethodDecl) (t : String) : Prop :=
  ∃ doc notes, m.docComment = some doc ∧ docs doc = .ok notes ∧ Annotation.LastResult notes t

/-- The method has the return type `t` by itself. -/
inductive MethodDecl.Gives (docs : DocReader) (m : MethodDecl) : String → Prop where
  /-- The last documented type counts before all else; the object itself is of the type `self`. -/
  | documented {t : String} (doc : m.Documents docs t) :
      Gives docs m (if t = "$this" then "self" else t)
  | construct (undoc : ∀ t, ¬ m.Documents docs t) (make : m.name = "__construct") :
      Gives docs m "self"
  | declared {t : String} (undoc : ∀ t, ¬ m.Documents docs t) (plain : m.name ≠ "__construct")
      (type : m.returnType = some t) (nonempty : t ≠ "") : Gives docs m t

/-- Whether the view of `name` shows a method called `m`. -/
def showsMethod (view : String → Except SourceError ClassView) (m name : String) : Bool :=
  match view name with
  | .ok v => v.methods.any (·.name = m)
  | .error _ => false

/-- The method called `m` returns `t` on the class that is found under `name`. -/
inductive Returns (docs : DocReader) (view : String → Except SourceError ClassView) :
    String → String → String → Prop where
  | own {name : String} {v : ClassView} {m : MethodDecl} {t : String} (found : view name = .ok v)
      (shown : m ∈ v.methods) (type : m.Gives docs t) : Returns docs view name m.name t
  /-- The first ancestor that shows the method decides, whatever the method returns there. -/
  | inherited {name : String} {v : ClassView} {m : MethodDecl} {ancestor t : String}
      (found : view name = .ok v) (shown : m ∈ v.methods) (untyped : ∀ t, ¬ m.Gives docs t)
      (first : v.ancestors.find? (showsMethod view m.name) = some ancestor)
      (above : Returns docs view ancestor m.name t) : Returns docs view name m.name t
  | unknown {name : String} {v : ClassView} {m : MethodDecl} (found : view name = .ok v)
      (shown : m ∈ v.methods) (untyped : ∀ t, ¬ m.Gives docs t)
      (nowhere : v.ancestors.find? (showsMethod view m.name) = none) :
      Returns docs view name m.name "???"

/-- No rule leaves a return type empty. -/
theorem Returns.ne_empty {docs : DocReader} {view : String → Except SourceError ClassView}
    {name m t : String} (h : Returns docs view name m t) : t ≠ "" := by
  induction h with
  | own _ _ type =>
    cases type with
    | @documented t doc =>
      obtain ⟨-, -, -, -, -, -, -, ht, -⟩ := doc
      by_cases hthis : t = "$this"
      · simp [hthis]
      · simpa [hthis] using ht
    | construct => decide
    | declared _ _ _ nonempty => exact nonempty
  | inherited _ _ _ _ _ ih => exact ih
  | unknown => decide

/-! ### What annotations come to -/

namespace Annotation

variable {notes : List Annotation} {t : String}

/-- An annotation gives a return type exactly if it is a result with a type. -/
theorem returnType?_eq_none_iff {note : Annotation} :
    note.returnType? = none ↔ ∀ u, note = .result u → u = "" := by
  cases note with
  | result u =>
    rw [returnType?]
    by_cases hu : u = ""
    · simp [hu]
    · by_cases hthis : u = thisType <;> simp [hu, hthis]
  | param => simp [returnType?]
  | method => simp [returnType?]
  | invalid => simp [returnType?]

/-- What comes after the last result has no say. -/
theorem LastResult.annotatedReturn_eq (h : LastResult notes t) :
    annotatedReturn notes = some (if t = "$this" then "self" else t) := by
  obtain ⟨before, after, rfl, ht, hafter⟩ := h
  have hnone : after.filterMap returnType? = [] := by
    rw [List.filterMap_eq_nil_iff]
    intro note hnote
    rw [returnType?_eq_none_iff]
    rintro u rfl
    exact hafter u hnote
  have hlast : (result t).returnType? = some (if t = "$this" then "self" else t) := by
    rw [returnType?, if_neg ht]
    show (if t = "$this" then some "self" else some t) = _
    split <;> rfl
  rw [annotatedReturn, List.filterMap_append, List.filterMap_cons_some hlast, hnone,
    List.getLast?_concat]

/-- Annotations with a return type among them have a last one. -/
theorem exists_lastResult {u : String} (hu : result u ∈ notes) (hne : u ≠ "") :
    ∃ t, LastResult notes t := by
  induction notes using List.reverseRecOn with
  | nil => exact absurd hu List.not_mem_nil
  | append_singleton notes note ih =>
    by_cases hlast : ∃ t, note = .result t ∧ t ≠ ""
    · obtain ⟨t, rfl, ht⟩ := hlast
      exact ⟨t, notes, [], rfl, ht, fun w hw => absurd hw List.not_mem_nil⟩
    · have hmem : result u ∈ notes := by
        refine (List.mem_append.mp hu).resolve_right fun hw => hlast ⟨u, ?_, hne⟩
        exact (List.mem_singleton.mp hw).symm
      obtain ⟨t, before, after, rfl, ht, hafter⟩ := ih hmem
      refine ⟨t, before, after ++ [note], by simp, ht, fun w hw => ?_⟩
      rcases List.mem_append.mp hw with hw | hw
      · exact hafter w hw
      · by_contra hwne
        exact hlast ⟨w, (List.mem_singleton.mp hw).symm, hwne⟩

theorem annotatedReturn_eq_none (h : ∀ t, ¬ LastResult notes t) : annotatedReturn notes = none := by
  have hnone : notes.filterMap returnType? = [] := by
    rw [List.filterMap_eq_nil_iff]
    intro note hnote
    rw [returnType?_eq_none_iff]
    rintro u rfl
    by_contra hne
    obtain ⟨t, ht⟩ := exists_lastResult hnote hne
    exact h t ht
  rw [annotatedReturn, hnone, List.getLast?_nil]

end Annotation

namespace MethodDecl

variable {docs : DocReader} {m : MethodDecl} {t : String}

/-- A method is documented by the annotations that can be used of its block. -/
theorem documents_iff :
    m.Documents docs t ↔ Annotation.LastResult (usableAnnotations docs m.docComment) t := by
  have hnil : ¬ Annotation.LastResult [] t := by
    rintro ⟨before, after, hnil, -⟩
    simp at hnil
  rw [Documents, usableAnnotations]
  cases hdoc : m.docComment with
  | none => simpa using hnil
  | some doc =>
    cases hread : docs doc with
    | error error => simpa [hread] using hnil
    | ok notes => simp [hread]

theorem annotatedReturn_of_undocumented (h : ∀ t, ¬ m.Documents docs t) :
    annotatedReturn (usableAnnotations docs m.docComment) = none :=
  Annotation.annotatedReturn_eq_none fun t ht => h t (documents_iff.mpr ht)

/-- A method with a type of its own returns it, whatever there is to inherit. -/
theorem Gives.mergeReturn_eq (h : m.Gives docs t) (inherited : Option String) :
    mergeReturn (usableAnnotations docs m.docComment) m inherited = t := by
  cases h with
  | documented doc => rw [mergeReturn, (documents_iff.mp doc).annotatedReturn_eq]
  | construct undoc make =>
    rw [mergeReturn, annotatedReturn_of_undocumented undoc]
    simp [isConstructor, make, Signature.selfType]
  | declared undoc plain type nonempty =>
    rw [mergeReturn, annotatedReturn_of_undocumented undoc]
    simp [isConstructor, plain, type, nonempty]

/-- A method without a type of its own returns what it inherits. -/
theorem mergeReturn_of_not_gives (h : ∀ t, ¬ m.Gives docs t) (inherited : Option String) :
    mergeReturn (usableAnnotations docs m.docComment) m inherited = inherited.getD "???" := by
  have hundoc : ∀ t, ¬ m.Documents docs t := fun t doc => h _ (.documented doc)
  have hplain : m.name ≠ "__construct" := fun make => h _ (.construct hundoc make)
  have hempty : m.returnType.getD "" = "" := by
    cases htype : m.returnType with
    | none => rfl
    | some t =>
      by_contra hne
      exact h t (.declared hundoc hplain htype hne)
  rw [mergeReturn, annotatedReturn_of_undocumented hundoc]
  simp [isConstructor, hplain, hempty, Signature.unresolvedType]

end MethodDecl

/-! ### Views that show each name once -/

/-- The source shows no method name twice on one class. -/
def ShowsOnce (view : String → Except SourceError ClassView) : Prop :=
  ∀ name v, view name = .ok v → v.methods.Pairwise fun a b => a.name ≠ b.name

/-- A rule for a method of a class speaks of one view and of one declaration. -/
theorem ShowsOnce.eq_of_name {view : String → Except SourceError ClassView} (h : ShowsOnce view)
    {name : String} {v v' : ClassView} {m m' : MethodDecl} (found : view name = .ok v)
    (shown : m ∈ v.methods) (found' : view name = .ok v') (shown' : m' ∈ v'.methods)
    (hname : m.name = m'.name) : v' = v ∧ m' = m := by
  obtain rfl : v = v' := Except.ok.inj (found.symm.trans found')
  have hfirst := find?_of_mem MethodDecl.name (h _ _ found) shown'
  rw [← hname, find?_of_mem MethodDecl.name (h _ _ found) shown] at hfirst
  exact ⟨rfl, (Option.some.inj hfirst).symm⟩

/-- The rules, one level at a time. -/
theorem ShowsOnce.returns_iff {docs : DocReader} {view : String → Except SourceError ClassView}
    (h : ShowsOnce view) {name t : String} {v : ClassView} {m : MethodDecl}
    (found : view name = .ok v) (shown : m ∈ v.methods) :
    Returns docs view name m.name t ↔ m.Gives docs t ∨ (∀ u, ¬ m.Gives docs u) ∧
      match v.ancestors.find? (showsMethod view m.name) with
      | some ancestor => Returns docs view ancestor m.name t
      | none => t = "???" := by
  constructor
  · intro hret
    generalize hname : m.name = n at hret
    cases hret with
    | own found' shown' type =>
      obtain ⟨rfl, rfl⟩ := h.eq_of_name found shown found' shown' hname
      exact .inl type
    | inherited found' shown' untyped first above =>
      obtain ⟨rfl, rfl⟩ := h.eq_of_name found shown found' shown' hname
      rw [first]
      exact .inr ⟨untyped, above⟩
    | unknown found' shown' untyped nowhere =>
      obtain ⟨rfl, rfl⟩ := h.eq_of_name found shown found' shown' hname
      rw [nowhere]
      exact .inr ⟨untyped, rfl⟩
  · rintro (type | ⟨untyped, hlevel⟩)
    · exact .own found shown type
    · split at hlevel
      · exact .inherited found shown untyped ‹_› hlevel
      · rw [hlevel]
        exact .unknown found shown untyped ‹_›

namespace Registry

variable {docs : DocReader} {view : String → Except SourceError ClassView} {r : Registry}
  {id : ClassId} {e : Entry} {m : MethodDecl}

/-! ### Methods of resolved entries -/

/-- A method that the view of a resolved entry shows is merged under its name. -/
theorem Sound.method?_of_mem (hs : Sound docs r) (hf : Faithful view r) (honce : ShowsOnce view)
    (he : r.entries[id]? = some e) (hres : e.isResolved = true) (hm : m ∈ e.view.methods) :
    e.method? m.name = some (mergeMethod docs id m (r.inheritedReturn e.ancestors m.name)) := by
  have hpair := honce _ _ (hf he)
  rw [hs.method?_eq he hres, find?_reverse_of_pairwise hpair,
    find?_of_mem MethodDecl.name hpair hm, Option.map_some]

/-- A resolved entry has a method exactly if its view shows it. -/
theorem Sound.isSome_method?_eq (hs : Sound docs r) (hf : Faithful view r) {name : String}
    (h : r.Provides id name) (m : String) : (r.method? id m).isSome = showsMethod view m name := by
  obtain ⟨e, he, rfl, hres⟩ := h
  have hview : view e.requested = .ok e.view := hf he
  rw [showsMethod, hview, method?, he]
  show (e.method? m).isSome = e.view.methods.any (·.name = m)
  rw [hs.method?_eq he hres, Option.isSome_map, Bool.eq_iff_iff, List.find?_isSome,
    List.any_eq_true]
  simp

/-- Among resolved entries for a list of names, the first one that has a method is the one for the
first name whose view shows it. -/
theorem Sound.findSome?_method?_cases (hs : Sound docs r) (hf : Faithful view r) (m : String)
    {ids : List ClassId} {names : List String} (h : List.Forall₂ r.Provides ids names) :
    (names.find? (showsMethod view m) = none ∧ ids.findSome? (r.method? · m) = none) ∨
      ∃ name id sig, names.find? (showsMethod view m) = some name ∧ id ∈ ids ∧
        r.Provides id name ∧ r.method? id m = some sig ∧
        ids.findSome? (r.method? · m) = some sig := by
  induction h with
  | nil => exact .inl ⟨rfl, rfl⟩
  | @cons id name ids names hprov _ ih =>
    have hshow := hs.isSome_method?_eq hf hprov m
    rw [List.find?_cons, List.findSome?_cons, ← hshow]
    cases hm : r.method? id m with
    | some sig => exact .inr ⟨name, id, sig, rfl, List.mem_cons_self, hprov, hm, rfl⟩
    | none =>
      refine ih.imp_right ?_
      rintro ⟨first, i, sig, hfirst, hi, hrest⟩
      exact ⟨first, i, sig, hfirst, List.mem_cons_of_mem _ hi, hrest⟩

/-- The rules give the return type of every method of a resolved entry, and no other. -/
theorem Sound.returns_iff (hs : Sound docs r) (hf : Faithful view r) (honce : ShowsOnce view)
    (he : r.entries[id]? = some e) (hres : e.isResolved = true) {m : String} {sig : Signature}
    (hm : e.method? m = some sig) (t : String) :
    Returns docs view e.requested m t ↔ t = sig.returnType := by
  obtain ⟨rank, hrank⟩ := hs.ranked
  -- ancestors first, in the order of the ranks
  induction hk : rank id using Nat.strongRecOn generalizing id e sig t with
  | _ k ih =>
    rw [hs.method?_eq he hres, Option.map_eq_some_iff] at hm
    obtain ⟨d, hd, rfl⟩ := hm
    have hname : d.name = m := by simpa using List.find?_some hd
    have hshown : d ∈ e.view.methods := List.mem_reverse.mp (List.mem_of_find?_eq_some hd)
    subst hname
    rw [honce.returns_iff (hf he) hshown]
    show _ ↔ t = mergeReturn (usableAnnotations docs d.docComment) d _
    by_cases hown : ∃ u, d.Gives docs u
    · obtain ⟨u, hu⟩ := hown
      rw [hu.mergeReturn_eq]
      constructor
      · rintro (ht | ⟨hnone, -⟩)
        · exact (ht.mergeReturn_eq none).symm.trans (hu.mergeReturn_eq none)
        · exact absurd hu (hnone u)
      · rintro rfl
        exact .inl hu
    · have hown : ∀ u, ¬ d.Gives docs u := fun u hu => hown ⟨u, hu⟩
      rw [MethodDecl.mergeReturn_of_not_gives hown, inheritedReturn]
      simp only [hown, false_or, not_false_eq_true, implies_true, true_and]
      rcases hs.findSome?_method?_cases hf d.name (hs.provides_ancestors he hres) with
        ⟨hnone, hnone'⟩ | ⟨name, i, sig, hfirst, hi, hprov, hsig, hsome⟩
      · rw [hnone, hnone']
        rfl
      · obtain ⟨o, ho, rfl, hreso⟩ := hprov
        rw [method?, ho] at hsig
        rw [hfirst, hsome]
        exact ih (rank i) (hk ▸ hrank he i hi) ho hreso hsig t rfl

/-- **Return types**: let a source give the same answers whenever it is asked, and show no method
name twice on one class. Then in every registry that operations lead to, shared or not, a resolved
entry holds the view of the name it was requested under and has every method that this view shows,
with the return type that the rules give: no other follows from them, and it is never empty. -/
theorem return_types_by_rules (ctx : Context) (view : String → Except SourceError ClassView)
    (hsteady : Steady ctx view) (honce : ShowsOnce view) (shared : Bool) (r : Registry)
    (hreach : Reachable ctx shared r) (id : ClassId) (e : Entry) (he : r.entries[id]? = some e)
    (hres : r.stateOf id e = .resolved) :
    view e.requested = .ok e.view ∧ ∀ m ∈ e.view.methods, ∃ sig, e.methods[m.name]? = some sig ∧
      sig.returnType ≠ "" ∧
      ∀ t, Returns ctx.docs view e.requested m.name t ↔ t = sig.returnType := by
  have hres : e.isResolved = true := stateOf_eq_resolved_iff.mp hres
  have hs : SteadySound ctx.docs view r :=
    hreach.steps.steadySound hsteady (steadySound_of_empty rfl rfl rfl)
  refine ⟨hs.faithful he, fun m hm => ?_⟩
  have hmethod := hs.method?_of_mem hs.faithful honce he hres hm
  have hiff := hs.returns_iff hs.faithful honce he hres hmethod
  exact ⟨_, hmethod, ((hiff _).mpr rfl).ne_empty, hiff⟩

/-- A codebase shows no method name twice on one class. -/
theorem showsOnce_view (c : Codebase) : ShowsOnce c.view := by
  intro name v hv
  rw [Codebase.methods_of_view_eq_ok hv]
  exact Codebase.pairwise_firstOfEachName _

/-- A method that is typed two levels up, and one that is typed nowhere. -/
def relay : Codebase := .ofList
  [{ name := "Runner", kind := .interface,
     methods := [{ name := "run", returnType := some "int" }, { name := "halt" }] },
    { name := "Base", interfaces := ["Runner"],
      methods := [{ name := "run", docComment := some "@return" }] },
    { name := "Leaf", parent := some "Base",
      methods := [{ name := "run", returnType := some "" }, { name := "halt" }] }]

/-- Empty annotations and empty types are passed over on the way up, without sharing too. -/
theorem return_types_by_rules_relay : ∃ r e,
    Reachable (relay.context fun _ => .ok [.result ""]) false r ∧ r.entries[0]? = some e ∧
      r.stateOf 0 e = .resolved ∧ e.requested = "Leaf" ∧
      Returns (fun _ => .ok [.result ""]) relay.view "Leaf" "run" "int" ∧
      (∀ t, Returns (fun _ => .ok [.result ""]) relay.view "Leaf" "run" t → t = "int") ∧
      Returns (fun _ => .ok [.result ""]) relay.view "Leaf" "halt" "???" := by
  have hplay : (play (relay.context fun _ => .ok [.result ""]) [.request "Leaf"]
      { shared := false }).bind (fun p => p.2.entries[0]?.map fun e =>
        (p.2.stateOf 0 e, e.requested, e.view.methods.map (·.name),
          (e.methods["run"]?).map (·.returnType), (e.methods["halt"]?).map (·.returnType))) =
      some (.resolved, "Leaf", ["run", "halt"], some "int", some "???") := by
    decide +kernel
  obtain ⟨⟨answers, r⟩, hr, h⟩ := Option.bind_eq_some_iff.mp hplay
  obtain ⟨e, he, h⟩ := Option.map_eq_some_iff.mp h
  simp only [Prod.mk.injEq] at h
  obtain ⟨hstate, hname, hmethods, hrun, hhalt⟩ := h
  have hreach : Reachable (relay.context fun _ => .ok [.result ""]) false r := ⟨_, answers, hr⟩
  obtain ⟨-, hrules⟩ := return_types_by_rules _ relay.view (relay.bounded _).steady
    (showsOnce_view relay) false r hreach 0 e he hstate
  have hreturns : ∀ {m t : String}, m ∈ e.view.methods.map (·.name) →
      (e.methods[m]?).map (·.returnType) = some t →
        ∀ u, Returns (fun _ => .ok [.result ""]) relay.view "Leaf" m u ↔ u = t := by
    intro m t hm ht
    obtain ⟨d, hd, rfl⟩ := List.mem_map.mp hm
    obtain ⟨sig, hsig, -, hiff⟩ := hrules d hd
    rw [hsig] at ht
    rw [← hname, ← Option.some.inj ht]
    exact hiff
  rw [hmethods] at hreturns
  exact ⟨r, e, hreach, he, hstate, hname, (hreturns (by simp) hrun _).mpr rfl,
    fun t => (hreturns (by simp) hrun t).mp, (hreturns (by simp) hhalt _).mpr rfl⟩

end Registry

end ClassSurface
