import ClassSurface.Proofs.Codebase.Flattening
import ClassSurface.Proofs.Registry.Resolvability
import ClassSurface.Proofs.Registry.Surface

/-! # Proofs.Registry.Inheritance — inherited methods are those of the ancestors

An entry merges every method that its view shows, inherited ones included, and looks at its
ancestors only for return types. Both come to the same: the declaration that a class inherits is the
one that its first ancestor with such a method shows (`Codebase.visible?_eq`), and to merge a
declaration with the return type that it was merged to before changes nothing (`mergeMethod_again`).
-/

namespace ClassSurface

/-! ### Merging a declaration twice -/

/-- A return type inherited from the same declaration changes nothing. -/
theorem mergeReturn_again (notes : List Annotation) (d : MethodDecl) (inherited : Option String) :
    mergeReturn notes d (some (mergeReturn notes d inherited)) = mergeReturn notes d inherited := by
  unfold mergeReturn
  cases annotatedReturn notes with
  | some typeHint => rfl
  | none =>
    by_cases hctor : d.isConstructor = true
    · simp [hctor]
    · by_cases hdeclared : d.returnType.getD "" = ""
      · simp [hctor, hdeclared]
      · simp [hctor, hdeclared]

theorem mergeMethod_again (docs : DocReader) (owner other : ClassId) (d : MethodDecl)
    (inherited : Option String) :
    mergeMethod docs owner d (some (mergeMethod docs other d inherited).returnType) =
      { mergeMethod docs other d inherited with owner := owner } := by
  simp only [mergeMethod, mergeReturn_again]

/-! ### Declarations behind methods -/

/-- With no name twice, it does not matter from which end a name is looked for. -/
theorem find?_reverse_of_pairwise {ms : List MethodDecl}
    (h : ms.Pairwise fun a b => a.name ≠ b.name) (m : String) :
    ms.reverse.find? (·.name = m) = ms.find? (·.name = m) := by
  induction ms with
  | nil => rfl
  | cons a ms ih =>
    obtain ⟨ha, hms⟩ := List.pairwise_cons.mp h
    rw [List.reverse_cons, List.find?_append, ih hms]
    by_cases hname : a.name = m
    · have hnone : ms.find? (·.name = m) = none := by
        rw [List.find?_eq_none]
        intro b hb
        have hne := ha b hb
        rw [hname] at hne
        simpa using hne.symm
      simp [hname, hnone]
    · simp [hname]

namespace Registry

variable {c : Codebase} {docs : DocReader} {r : Registry} {id : ClassId} {e : Entry} {m : String}

/-- The methods of a resolved entry are the visible ones, merged. -/
theorem SteadySound.method?_eq_visible? (hs : SteadySound docs c.view r)
    (he : r.entries[id]? = some e) (hres : e.isResolved = true) (m : String) :
    e.method? m = (c.visible? m e.requested).map fun d =>
      mergeMethod docs id d (r.inheritedReturn e.ancestors m) := by
  rw [hs.method?_eq he hres, Codebase.methods_of_view_eq_ok (hs.faithful he),
    Codebase.visible?, Codebase.visibleMethods,
    find?_reverse_of_pairwise (Codebase.pairwise_firstOfEachName _)]

/-- The first ancestor that has a method is the first on which it is visible. -/
theorem exists_findSome?_eq {ids : List ClassId} {names : List String} {d : MethodDecl}
    (h : List.Forall₂ (fun a n => ∃ inherited, r.method? a m =
      (c.visible? m n).map fun d => mergeMethod docs a d inherited) ids names)
    (hd : names.findSome? (c.visible? m) = some d) :
    ∃ a inherited, ids.findSome? (r.method? · m) = some (mergeMethod docs a d inherited) := by
  induction h with
  | nil => cases hd
  | @cons a n ids names ha _ ih =>
    obtain ⟨inherited, ha⟩ := ha
    rw [List.findSome?_cons] at hd ⊢
    rw [ha]
    cases hn : c.visible? m n with
    | none =>
      rw [hn] at hd
      exact ih hd
    | some d' =>
      rw [hn] at hd
      cases hd
      exact ⟨a, inherited, rfl⟩

/-- The ancestors of a resolved entry have the methods that are visible on the ancestors of its
class, merged. -/
theorem SteadySound.forall₂_method?_eq (hs : SteadySound docs c.view r)
    (he : r.entries[id]? = some e) (hres : e.isResolved = true) (m : String) :
    List.Forall₂ (fun a n => ∃ inherited, r.method? a m =
      (c.visible? m n).map fun d => mergeMethod docs a d inherited)
      e.ancestors (c.ancestorsOf e.requested) := by
  obtain ⟨decl, hfind, -, hanc⟩ := Codebase.view_eq_ok (hs.faithful he)
  rw [Codebase.ancestorsOf_of_find? hfind, ← hanc]
  refine (hs.provides_ancestors he hres).imp fun a n hprov => ?_
  obtain ⟨ea, hea, rfl, hresa⟩ := hprov
  refine ⟨r.inheritedReturn ea.ancestors m, ?_⟩
  rw [method?, hea]
  exact hs.method?_eq_visible? hea hresa m

/-- A declaration that is visible on a class and not its own is visible on an ancestor; it is the
first one there. -/
theorem findSome?_visible?_of_not_own {n : String} {d : MethodDecl} (hground : c.Grounded n)
    (hd : c.visible? m n = some d) (hdecl : d.declaringClass ≠ n) :
    (c.ancestorsOf n).findSome? (c.visible? m) = some d := by
  rw [Codebase.visible?_eq hground] at hd
  cases hown : c.own? m n with
  | none =>
    rw [hown, Option.none_or] at hd
    exact hd
  | some d' =>
    rw [hown, Option.some_or] at hd
    cases hd
    exact absurd (Codebase.declaringClass_of_own? hown) hdecl

/-- **Inheritance is coherent**: a method that an entry does not declare itself is, apart from its
owner, the method of the first of its ancestors that has one of that name, the parent first and then
the interfaces in order. -/
theorem inherited_method_eq (c : Codebase) (docs : DocReader) (shared : Bool) (r : Registry)
    (hreach : Reachable (c.context docs) shared r) (id : ClassId) (e : Entry)
    (he : r.entries[id]? = some e) (hres : r.stateOf id e = .resolved) (m : String)
    (sig : Signature) (hm : e.methods[m]? = some sig) (hdecl : sig.declaringClass ≠ e.name) :
    ∃ sig', (e.parent.toList ++ e.interfaces).findSome? (r.method? · m) = some sig' ∧
      sig = { sig' with owner := id } := by
  have hs : SteadySound docs c.view r := hreach.steadySound (c.bounded docs)
  have hres : e.isResolved = true := stateOf_eq_resolved_iff.mp hres
  have hground := (hs.resolvable hs.faithful he hres).grounded
  have hm : e.method? m = some sig := hm
  rw [hs.method?_eq_visible? he hres, Option.map_eq_some_iff] at hm
  obtain ⟨d, hd, rfl⟩ := hm
  rw [name_eq_requested hs.faithful he] at hdecl
  obtain ⟨a, inherited, hfirst⟩ := exists_findSome?_eq (hs.forall₂_method?_eq he hres m)
    (findSome?_visible?_of_not_own hground hd hdecl)
  refine ⟨_, hfirst, ?_⟩
  rw [inheritedReturn, hfirst, Option.map_some, mergeMethod_again]

/-- An interface that a class has twice over, through its parent and by itself. -/
def diamond : Codebase := .ofList
  [{ name := "Named", kind := .interface, methods := [{ name := "label", docComment := some "" }] },
    { name := "Base", kind := .abstractClass, interfaces := ["Named"] },
    { name := "Leaf", parent := some "Base", interfaces := ["Named"] }]

/-- Without sharing there are two entries for the interface; the method is the parent's. -/
theorem inherited_method_eq_diamond : ∃ r e sig sig',
    Reachable (diamond.context fun _ => .ok [.result "string"]) false r ∧ r.size = 4 ∧
      r.entries[0]? = some e ∧ r.stateOf 0 e = .resolved ∧ e.name = "Leaf" ∧
      e.methods["label"]? = some sig ∧ sig.declaringClass = "Named" ∧ sig.returnType = "string" ∧
      (e.parent.toList ++ e.interfaces).findSome? (r.method? · "label") = some sig' ∧
      sig = { sig' with owner := 0 } := by
  have hplay : (play (diamond.context fun _ => .ok [.result "string"]) [.request "Leaf"]
      { shared := false }).bind (fun p => p.2.entries[0]?.bind fun e => e.methods["label"]?.map
        fun sig => (p.2.size, p.2.stateOf 0 e, e.name, sig.declaringClass, sig.returnType)) =
      some (4, .resolved, "Leaf", "Named", "string") := by
    decide +kernel
  obtain ⟨⟨answers, r⟩, hr, h⟩ := Option.bind_eq_some_iff.mp hplay
  obtain ⟨e, he, h⟩ := Option.bind_eq_some_iff.mp h
  obtain ⟨sig, hm, h⟩ := Option.map_eq_some_iff.mp h
  simp only [Prod.mk.injEq] at h
  obtain ⟨hsize, hstate, hname, hdecl, hreturn⟩ := h
  have hreach : Reachable (diamond.context fun _ => .ok [.result "string"]) false r :=
    ⟨_, answers, hr⟩
  have hother : sig.declaringClass ≠ e.name := by
    rw [hdecl, hname]
    decide
  obtain ⟨sig', hfirst, hsig⟩ := inherited_method_eq diamond _ false r hreach 0 e he hstate "label"
    sig hm hother
  exact ⟨r, e, sig, sig', hreach, hsize, he, hstate, hname, hm, hdecl, hreturn, hfirst, hsig⟩

end Registry

end ClassSurface
