import ClassSurface.Proofs.Registry.History
import ClassSurface.Proofs.Registry.Surface

/-! # Proofs.Registry.WellFormed — what can be relied on between operations

`WellFormed` collects what a client of a registry may rely on: numbers that lead to entries, entries
without a surface that are empty, resolved entries that refer to resolved entries in the order in
which their views name them, and references without cycles. It holds after every operation, failed
or not, whatever the source answers.
-/

namespace ClassSurface.Registry

open Relation

variable {docs : DocReader} {r : Registry} {id : ClassId} {e : Entry}

/-- The entry number `a` refers to the entry number `b` as its parent or as an interface. -/
def Refers (r : Registry) (a b : ClassId) : Prop :=
  ∃ e, r.entries[a]? = some e ∧ (e.parent = some b ∨ b ∈ e.interfaces)

/-- What can be relied on between operations. -/
structure WellFormed (r : Registry) : Prop where
  idle : r.stack = []
  /-- The entry number `id` has the number `id`. -/
  numbered : ∀ (id : ClassId) (e : Entry), r.entries[id]? = some e → e.id = id
  not_inProgress : ∀ (id : ClassId) (e : Entry), r.entries[id]? = some e →
    r.stateOf id e ≠ .inProgress
  /-- The index leads to entries, under their own numbers. -/
  index : ∀ (name : String) (id : ClassId), r.idOf? name = some id → id < r.size ∧
    ∃ e, r.find? name = some (id, e) ∧ r.entries[id]? = some e ∧ e.requested = name
  rendered : ∀ id ∈ r.rendered, id < r.size ∧
    ∃ e, r.entries[id]? = some e ∧ r.stateOf id e = .resolved
  references_lt : ∀ a b : ClassId, r.Refers a b → a < r.size ∧ b < r.size
  pending : ∀ (id : ClassId) (e : Entry), r.entries[id]? = some e → r.stateOf id e = .pending →
    e.parent = none ∧ e.interfaces = [] ∧ e.dynamicMethods = ∅ ∧ e.methods = ∅
  /-- A resolved entry has a parent exactly if its view names one: an entry that was requested under
  that name and is resolved. -/
  parent : ∀ (id : ClassId) (e : Entry), r.entries[id]? = some e → r.stateOf id e = .resolved →
    List.Forall₂ r.Provides e.parent.toList e.view.parent.toList
  /-- A resolved entry has one interface for each that its view names, in the same order: an entry
  that was requested under that name and is resolved. -/
  interfaces : ∀ (id : ClassId) (e : Entry), r.entries[id]? = some e →
    r.stateOf id e = .resolved → List.Forall₂ r.Provides e.interfaces e.view.interfaces
  method_names : ∀ (id : ClassId) (e : Entry), r.entries[id]? = some e →
    r.stateOf id e = .resolved → ∀ m, m ∈ e.methods ↔ m ∈ e.view.methods.map (·.name)
  methods : ∀ (id : ClassId) (e : Entry), r.entries[id]? = some e →
    ∀ (m : String) (sig : Signature), e.methods[m]? = some sig →
      sig.name = m ∧ sig.owner = id ∧ sig.owner < r.size
  acyclic : ∀ id : ClassId, ¬ TransGen r.Refers id id

/-! ### Parts of the invariant -/

theorem mem_ancestors_iff {a : ClassId} :
    a ∈ e.ancestors ↔ e.parent = some a ∨ a ∈ e.interfaces := by
  rw [Entry.ancestors, List.mem_append, Option.mem_toList]

/-- References lead downwards in some numbering, so they form no cycle. -/
theorem Sound.acyclic (h : Sound docs r) (id : ClassId) : ¬ TransGen r.Refers id id := by
  obtain ⟨rank, hrank⟩ := h.ranked
  have hlt : ∀ {a b : ClassId}, TransGen r.Refers a b → rank b < rank a := by
    intro a b hab
    induction hab with
    | single hab =>
      obtain ⟨e, he, hb⟩ := hab
      exact hrank he _ (mem_ancestors_iff.mpr hb)
    | tail _ hbc ih =>
      obtain ⟨e, he, hc⟩ := hbc
      exact Nat.lt_trans (hrank he _ (mem_ancestors_iff.mpr hc)) ih
  intro hcycle
  exact Nat.lt_irrefl _ (hlt hcycle)

theorem Sound.lt_of_refers (h : Sound docs r) {a b : ClassId} (hab : r.Refers a b) :
    a < r.size ∧ b < r.size := by
  obtain ⟨e, he, hb⟩ := hab
  obtain ⟨n, -, e', he', -⟩ := h.resolved_of_mem_ancestors he (mem_ancestors_iff.mpr hb)
  exact ⟨lt_size he, lt_size he'⟩

/-- The ancestors of a resolved entry, told apart into parent and interfaces. -/
theorem Sound.provides_parent_interfaces (h : Sound docs r) (he : r.entries[id]? = some e)
    (hres : e.isResolved = true) :
    List.Forall₂ r.Provides e.parent.toList e.view.parent.toList ∧
      List.Forall₂ r.Provides e.interfaces e.view.interfaces := by
  have hp := h.provides_ancestors he hres
  have hsurf := h.surface_eq he hres
  have hinterfaces : e.interfaces = e.ancestors.drop e.view.parent.toList.length := by
    rw [Entry.interfaces, hsurf]
    rfl
  have hparent : e.parent.toList = e.ancestors.take e.view.parent.toList.length := by
    have hlen : e.parent.toList.length = e.view.parent.toList.length := by
      have hsum := hp.length_eq
      have hrest := congrArg List.length hinterfaces
      rw [Entry.ancestors, ClassView.ancestors, List.length_append, List.length_append] at hsum
      rw [Entry.ancestors, List.length_drop, List.length_append] at hrest
      omega
    rw [← hlen, Entry.ancestors, List.take_left]
  rw [hparent, hinterfaces]
  exact ⟨List.forall₂_take_append _ _ _ hp, List.forall₂_drop_append _ _ _ hp⟩

theorem Sound.mem_methods_iff (h : Sound docs r) (he : r.entries[id]? = some e)
    (hres : e.isResolved = true) (m : String) :
    m ∈ e.methods ↔ m ∈ e.view.methods.map (·.name) := by
  rw [← Std.TreeMap.isSome_getElem?_iff_mem, ← Entry.method?, h.method?_eq he hres,
    Option.isSome_map]
  simp

/-- A method is kept under its own name and belongs to the entry that it is found in. -/
theorem Sound.name_owner_of_method (h : Sound docs r) (he : r.entries[id]? = some e) {m : String}
    {sig : Signature} (hm : e.method? m = some sig) : sig.name = m ∧ sig.owner = id := by
  cases hres : e.isResolved with
  | false =>
    rw [method?_eq_none hres] at hm
    cases hm
  | true =>
    rw [h.method?_eq he hres, Option.map_eq_some_iff] at hm
    obtain ⟨d, hd, rfl⟩ := hm
    have hname : d.name = m := by simpa using List.find?_some hd
    exact ⟨hname, rfl⟩

/-- A sound registry with nothing under way is well formed. -/
theorem Sound.wellFormed (h : Sound docs r) (hidle : r.stack = []) : r.WellFormed where
  idle := hidle
  numbered := fun _ _ he => h.numbered he
  not_inProgress := by
    intro id e he
    rw [stateOf, hidle]
    split <;> simp
  index := by
    intro name id hid
    obtain ⟨⟨e, he, hname⟩, -⟩ := idOf?_eq_some_iff.mp hid
    exact ⟨lt_size he, e, find?_eq_some_iff.mpr ⟨hid, he⟩, he, hname⟩
  rendered := by
    intro id hid
    obtain ⟨e, he, hres⟩ := h.rendered_resolved id hid
    exact ⟨lt_size he, e, he, stateOf_eq_resolved_iff.mpr hres⟩
  references_lt := fun a b hab => h.lt_of_refers hab
  pending := by
    intro id e he hpend
    have hsurf := surface_eq_none (stateOf_eq_pending_iff.mp hpend).1
    simp [Entry.parent, Entry.interfaces, Entry.dynamicMethods, Entry.methods, hsurf]
  parent := fun id e he hres =>
    (h.provides_parent_interfaces he (stateOf_eq_resolved_iff.mp hres)).1
  interfaces := fun id e he hres =>
    (h.provides_parent_interfaces he (stateOf_eq_resolved_iff.mp hres)).2
  method_names := fun id e he hres => h.mem_methods_iff he (stateOf_eq_resolved_iff.mp hres)
  methods := by
    intro id e he m sig hm
    obtain ⟨hname, howner⟩ := h.name_owner_of_method he hm
    exact ⟨hname, howner, howner ▸ lt_size he⟩
  acyclic := h.acyclic

/-- **Well-formedness**: whatever a source answers, whatever a reader makes of documentation, and
whether entries are shared or not, every operation leaves the registry well formed, also when it
fails. -/
theorem wellFormed_of_reachable (ctx : Context) (shared : Bool) (r : Registry)
    (h : Reachable ctx shared r) : r.WellFormed :=
  h.sound.wellFormed h.stack_eq_nil

/-- A source that does not know a class when it is asked for it first, and later gives it under
another name. -/
def latecomer : Source where
  answer := fun query name =>
    if name = "Base" then
      if query < 2 then .error (.unknownClass name)
      else .ok { name := "Root", kind := .plain, parent := none, interfaces := [],
                 docComment := none, methods := [{ name := "boot" }] }
    else .ok { name, kind := .plain, parent := some "Base", interfaces := ["Base"],
               docComment := none, methods := [{ name := "boot" }, { name := "boot" }] }
  depth := 2

/-- A request that fails, and a document of the same class that succeeds. -/
theorem wellFormed_after_retry : ∃ r, Reachable ⟨latecomer, .rejecting⟩ true r ∧
    r.size = 2 ∧ r.rendered.toList = [0] ∧ r.WellFormed := by
  have hplay : (play ⟨latecomer, .rejecting⟩ [.request "Shop", .document ["Shop"] (.only "Sh")]
      { shared := true }).map (fun p => (p.2.size, p.2.rendered.toList)) = some (2, [0]) := by
    decide +kernel
  obtain ⟨⟨answers, r⟩, hr, heq⟩ := Option.map_eq_some_iff.mp hplay
  obtain ⟨hsize, hrendered⟩ := Prod.mk.inj heq
  have hreach : Reachable ⟨latecomer, .rejecting⟩ true r := ⟨_, answers, hr⟩
  exact ⟨r, hreach, hsize, hrendered, wellFormed_of_reachable _ _ r hreach⟩

end ClassSurface.Registry
