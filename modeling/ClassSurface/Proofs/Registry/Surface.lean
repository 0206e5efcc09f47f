import ClassSurface.Proofs.Registry.Step
import Mathlib.Data.List.Induction

/-! # Proofs.Registry.Surface — what the surface of a class holds

A table made from a list of pairs gives the last value for a key. So the method table of a surface
gives, under a name, the last method of that name in the view, merged with its documentation and
with the return type of its first namesake among the ancestors (`getElem?_methods_surface`).
-/

namespace ClassSurface.Registry

variable {docs : DocReader} {r s : Registry} {id : ClassId} {v : ClassView} {ids : List ClassId}

/-- Of several values for one key the last one counts. -/
theorem getElem?_ofList {β : Type} (l : List (String × β)) (k : String) :
    (Std.TreeMap.ofList l)[k]? = (l.reverse.find? (·.1 = k)).map (·.2) := by
  induction l using List.reverseRecOn with
  | nil => simp
  | append_singleton l p ih =>
    obtain ⟨k', b⟩ := p
    rw [Std.TreeMap.ofList_eq_insertMany_empty, Std.TreeMap.insertMany_append,
      Std.TreeMap.insertMany_list_singleton, ← Std.TreeMap.ofList_eq_insertMany_empty,
      Std.TreeMap.getElem?_insert, List.reverse_append, List.reverse_singleton,
      List.singleton_append, List.find?_cons]
    by_cases h : k' = k
    · simp [h]
    · simp [h, ih]

/-- The method table of a surface. -/
theorem getElem?_methods_surface (m : String) :
    (r.surface docs id v ids).methods[m]? =
      (v.methods.reverse.find? (·.name = m)).map fun d =>
        mergeMethod docs id d (r.inheritedReturn ids m) := by
  rw [surface, getElem?_ofList, signatures, List.map_map, ← List.map_reverse, List.find?_map,
    Option.map_map]
  have hname : (fun p : String × Signature => decide (p.1 = m)) ∘
      ((fun s : Signature => (s.name, s)) ∘ fun d : MethodDecl =>
        mergeMethod docs id d (r.inheritedReturn ids d.name)) = fun d => decide (d.name = m) := rfl
  rw [hname]
  cases hd : v.methods.reverse.find? (·.name = m) with
  | none => rfl
  | some d =>
    have hm : d.name = m := by simpa using List.find?_some hd
    simp [hm]

/-! ### Resolved entries -/

variable {e : Entry}

/-- A resolved entry has the surface that its view and its ancestors make. -/
theorem Sound.surface_eq (h : Sound docs r) (he : r.entries[id]? = some e)
    (hres : e.isResolved = true) :
    e.surface = some (r.surface docs id e.view e.ancestors) := by
  obtain ⟨surface, hsurf⟩ := isResolved_iff.mp hres
  obtain ⟨ids, hp, rfl⟩ := h.settled he surface hsurf
  rw [ancestors_of_surface hsurf, surface_ancestors hp.length_eq]
  exact hsurf

/-- The methods of a resolved entry are those of its view, merged one by one. -/
theorem Sound.method?_eq (h : Sound docs r) (he : r.entries[id]? = some e)
    (hres : e.isResolved = true) (m : String) :
    e.method? m = (e.view.methods.reverse.find? (·.name = m)).map fun d =>
      mergeMethod docs id d (r.inheritedReturn e.ancestors m) := by
  rw [← getElem?_methods_surface, Entry.method?, Entry.methods, h.surface_eq he hres]
  rfl

theorem method?_eq_none (hopen : e.isResolved = false) (m : String) : e.method? m = none := by
  simp [Entry.method?, Entry.methods, surface_eq_none hopen]

end ClassSurface.Registry
