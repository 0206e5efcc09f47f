import ClassSurface.Proofs.Registry.Resolvability
import ClassSurface.Proofs.Registry.Surface

/-! # Proofs.Registry.Outline — what an entry says of its class

The outline of an entry is all that it says of its class, apart from the numbers of entries: header,
documented methods, and methods without their owners. The text of a class is a function of it.

* `outline_eq_of_requested_eq`: under a steady source, resolved entries for one name have one
  outline, whichever registries hold them and however these share entries.
* `SteadySound.outline_eq`: this is the outline that a new registry finds for the name, so it is a
  function of codebase, documentation and name.
-/

namespace ClassSurface

/-- The signature without the number of the entry it belongs to. -/
def Signature.unowned (s : Signature) : Signature := { s with owner := 0 }

/-- What can be said of a class without reference to a registry. -/
structure Outline where
  name : String
  header : String
  isInterface : Bool
  dynamicMethods : List (String × String)
  /-- The methods by name, without owners. -/
  methods : List (String × Signature)

namespace Outline

def ownMethods (o : Outline) : List Signature :=
  (o.methods.map (·.2)).filter (·.declaringClass = o.name)

def text (o : Outline) : String :=
  String.join ((o.header :: o.dynamicMethods.map (·.2) ++
    o.ownMethods.map (Signature.text o.isInterface)).map (· ++ "\n"))

end Outline

def Entry.outline (e : Entry) : Outline where
  name := e.name
  header := e.header
  isInterface := e.view.isInterface
  dynamicMethods := e.dynamicMethods.toList
  methods := e.methods.toList.map fun p => (p.1, p.2.unowned)

/-! ### An entry and its outline -/

theorem values_eq_map_toList {β : Type} (t : Std.TreeMap String β) :
    t.values = t.toList.map (·.2) := by
  show t.foldr (fun _ v l => v :: l) [] = _
  rw [Std.TreeMap.foldr_eq_foldr_toList]
  induction t.toList with
  | nil => rfl
  | cons p l ih => rw [List.foldr_cons, List.map_cons, ih]

/-- Tables that agree in what `f` makes of their values agree so in their lists. -/
theorem map_toList_eq {β γ : Type} (f : β → γ) {t t' : Std.TreeMap String β}
    (h : ∀ k : String, t[k]?.map f = t'[k]?.map f) :
    t.toList.map (fun p => (p.1, f p.2)) = t'.toList.map fun p => (p.1, f p.2) := by
  have hequiv : (t.map fun _ => f).Equiv (t'.map fun _ => f) := by
    refine .of_forall_constGet?_eq fun k => ?_
    rw [Std.TreeMap.getElem?_map, Std.TreeMap.getElem?_map]
    exact h k
  have hlist := Std.TreeMap.equiv_iff_toList_eq.mp hequiv
  rw [Std.TreeMap.toList_map, Std.TreeMap.toList_map] at hlist
  exact hlist

theorem Entry.ownMethods_outline (e : Entry) :
    e.outline.ownMethods = e.ownMethods.map Signature.unowned := by
  have hvalues : e.outline.methods.map (·.2) = e.methods.values.map Signature.unowned := by
    rw [values_eq_map_toList, List.map_map]
    show (e.methods.toList.map _).map _ = _
    rw [List.map_map]
    rfl
  rw [Outline.ownMethods, hvalues, List.filter_map, Entry.ownMethods]
  rfl

@[simp] theorem Entry.text_outline (e : Entry) : e.outline.text = e.text := by
  rw [Outline.text, Entry.text, Entry.lines, Entry.ownMethods_outline, values_eq_map_toList,
    List.map_map]
  rfl

/-- The outline depends on view, documented methods and methods without owners. -/
theorem Entry.outline_eq {e e' : Entry} (hview : e.view = e'.view)
    (hdynamic : e.dynamicMethods = e'.dynamicMethods)
    (hmethods : ∀ m, (e.method? m).map Signature.unowned = (e'.method? m).map Signature.unowned) :
    e.outline = e'.outline := by
  rw [Entry.outline, Entry.outline, map_toList_eq Signature.unowned hmethods, hdynamic, Entry.name,
    Entry.name, Entry.header, Entry.header, hview]

namespace Registry

variable {docs : DocReader} {view : String → Except SourceError ClassView} {r s : Registry}
  {i j : ClassId} {e e' : Entry}

/-! ### Entries of one name -/

/-- Lists that match one and the same list match each other. -/
theorem forall₂_join {α β γ : Type} {R : α → γ → Prop} {S : β → γ → Prop} {l : List α} {l' : List β}
    {names : List γ} (h : List.Forall₂ R l names) (h' : List.Forall₂ S l' names) :
    List.Forall₂ (fun a b => ∃ n, R a n ∧ S b n) l l' := by
  induction h generalizing l' with
  | nil =>
    cases h'
    exact .nil
  | cons hab _ ih =>
    cases h' with
    | cons hab' h' => exact .cons ⟨_, hab, hab'⟩ (ih h')

/-- In lists that match, the first hits match. -/
theorem map_findSome?_eq {α β γ δ : Type} {f : α → Option γ} {g : β → Option γ} {k : γ → δ}
    {l : List α} {l' : List β} (h : List.Forall₂ (fun a b => (f a).map k = (g b).map k) l l') :
    (l.findSome? f).map k = (l'.findSome? g).map k := by
  induction h with
  | nil => rfl
  | cons hab _ ih =>
    rename_i a b _ _ _
    rw [List.findSome?_cons, List.findSome?_cons]
    cases ha : f a <;> cases hb : g b <;> simp_all

/-- What is inherited does not depend on owners. -/
theorem inheritedReturn_eq {ids ids' : List ClassId} {m : String}
    (h : List.Forall₂ (fun a b => (r.method? a m).map Signature.unowned =
      (s.method? b m).map Signature.unowned) ids ids') :
    r.inheritedReturn ids m = s.inheritedReturn ids' m := by
  have hsig := congrArg (Option.map Signature.returnType) (map_findSome?_eq h)
  rw [Option.map_map, Option.map_map] at hsig
  exact hsig

/-- Resolved entries for one name have the same methods, apart from their owners. -/
theorem unowned_method?_eq (hs : Sound docs r) (hf : Faithful view r) (hs' : Sound docs s)
    (hf' : Faithful view s) (he : r.entries[i]? = some e) (hres : e.isResolved = true)
    (he' : s.entries[j]? = some e') (hres' : e'.isResolved = true)
    (hreq : e.requested = e'.requested) (m : String) :
    (e.method? m).map Signature.unowned = (e'.method? m).map Signature.unowned := by
  obtain ⟨rank, hrank⟩ := hs.ranked
  -- ancestors first, in the order of the ranks
  induction hk : rank i using Nat.strongRecOn generalizing i j e e' with
  | _ k ih =>
    have hview : e.view = e'.view := hf.view_eq hf' he he' hreq
    have hp := (List.forall₂_and_left _ _).mpr ⟨hrank he, hs.provides_ancestors he hres⟩
    have hp' := hs'.provides_ancestors he' hres'
    rw [← hview] at hp'
    have hinherited : r.inheritedReturn e.ancestors m = s.inheritedReturn e'.ancestors m := by
      refine inheritedReturn_eq ((forall₂_join hp hp').imp fun a b hab => ?_)
      obtain ⟨n, ⟨hlt, ea, hea, hname, hresa⟩, eb, heb, hname', hresb⟩ := hab
      rw [method?, method?, hea, heb]
      exact ih (rank a) (hk ▸ hlt) hea hresa heb hresb (hname.trans hname'.symm) rfl
    rw [hs.method?_eq he hres, hs'.method?_eq he' hres', hinherited, hview, Option.map_map,
      Option.map_map]
    rfl

/-- Resolved entries for one name have one outline, whichever registries hold them. -/
theorem outline_eq_of_requested_eq (hs : Sound docs r) (hf : Faithful view r) (hs' : Sound docs s)
    (hf' : Faithful view s) (he : r.entries[i]? = some e) (hres : e.isResolved = true)
    (he' : s.entries[j]? = some e') (hres' : e'.isResolved = true)
    (hreq : e.requested = e'.requested) : e.outline = e'.outline := by
  have hview : e.view = e'.view := hf.view_eq hf' he he' hreq
  refine Entry.outline_eq hview ?_ (unowned_method?_eq hs hf hs' hf' he hres he' hres' hreq)
  rw [Entry.dynamicMethods, Entry.dynamicMethods, hs.surface_eq he hres, hs'.surface_eq he' hres']
  show (r.surface docs i e.view e.ancestors).dynamicMethods = _
  rw [hview]
  rfl

end Registry

/-! ### What a codebase says of a class -/

/-- The outline that a new registry finds for a name, if the name can be resolved. -/
def Codebase.outline? (c : Codebase) (docs : DocReader) (name : String) : Option Outline :=
  match ({} : Registry).request (c.context docs) name with
  | some (.ok id, r) => r.entries[id]?.map Entry.outline
  | _ => none

namespace Registry

variable {c : Codebase} {docs : DocReader} {r : Registry} {id : ClassId} {e : Entry}

/-- A resolved entry has the outline that belongs to its name. -/
theorem SteadySound.outline_eq (hs : SteadySound docs c.view r) (he : r.entries[id]? = some e)
    (hres : e.isResolved = true) : c.outline? docs e.requested = some e.outline := by
  have hb := c.bounded docs
  have hnew : SteadySound docs c.view {} := steadySound_of_empty rfl rfl rfl
  obtain ⟨⟨res, t⟩, hreq⟩ := Option.isSome_iff_exists.mp (request_isSome hb hnew e.requested)
  -- the name is resolvable, so the new registry resolves it too
  have hfail := request_failure? hnew rfl hreq
  rw [(hs.resolvable hs.faithful he hres).firstDefect_eq_none (by simp)] at hfail
  obtain ⟨i, rfl⟩ := failure?_eq_none_iff.mp hfail
  have ht := (request_excursion hnew.toSound hreq).steps.steadySound hb.steady hnew
  obtain ⟨e', he', hname, hres'⟩ := provides_of_request hnew.toSound hreq
  rw [Codebase.outline?, hreq]
  show (t.entries[i]?).map Entry.outline = _
  rw [he', Option.map_some, outline_eq_of_requested_eq ht.toSound ht.faithful hs.toSound hs.faithful
    he' hres' he hres hname]

end Registry

end ClassSurface
