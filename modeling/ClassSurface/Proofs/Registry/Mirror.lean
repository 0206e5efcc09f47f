import ClassSurface.Proofs.Registry.Arena
import ClassSurface.Proofs.Registry.Queries

/-! # Proofs.Registry.Mirror — an arena beside a registry

An arena mirrors a registry if both show the same, descriptor by descriptor, name by name, query by
query and event by event. Only of a descriptor that is in progress, what has been written of its
surface so far has no counterpart.

* `Mirrors`: an arena and a registry show the same.
* `Mirrors.write`: what is written into a descriptor in progress does not show.
* `Mirrors.create`, `Mirrors.takeUp`, `Mirrors.reset`, `Mirrors.complete`: each change of an arena
  is a change of the registry.
-/

namespace ClassSurface

open Registry (Sound)

variable {docs : DocReader} {a b : Arena} {r s : Registry} {id : ClassId} {e : Entry}
  {d : Descriptor} {name : String}

/-- A descriptor shows an entry, which has the number `id` in `r`. -/
structure Descriptor.Mirrors (d : Descriptor) (r : Registry) (id : ClassId) (e : Entry) : Prop where
  number : d.id = e.id
  view : d.view = e.view
  state : d.state = r.stateOf id e
  surface : d.state ≠ .inProgress → d.toSurface = e.surface.getD .empty

/-- Descriptors keep showing their entries as long as these keep their states. -/
theorem Descriptor.Mirrors.congr (h : d.Mirrors r id e) (hstate : s.stateOf id e = r.stateOf id e) :
    d.Mirrors s id e :=
  ⟨h.number, h.view, h.state.trans hstate.symm, h.surface⟩

theorem Descriptor.Mirrors.name_eq (h : d.Mirrors r id e) : d.name = e.name := by
  rw [Descriptor.name, h.view, Entry.name]

/-- Nothing has been written of the surface of a pending descriptor. -/
theorem Descriptor.Mirrors.blank (h : d.Mirrors r id e) (hstate : d.state = .pending) :
    d.toSurface = .empty := by
  obtain ⟨hopen, -⟩ := Registry.stateOf_eq_pending_iff.mp (h.state.symm.trans hstate)
  rw [h.surface (by simp [hstate]), Registry.surface_eq_none hopen, Option.getD_none]

namespace Arena

/-- The arena and the registry show the same. -/
structure Mirrors (a : Arena) (r : Registry) : Prop where
  shared : a.shared = r.shared
  size : a.descriptors.size = r.size
  descriptors : ∀ {id : ClassId} {d : Descriptor} {e : Entry}, a.descriptors[id]? = some d →
    r.entries[id]? = some e → d.Mirrors r id e
  index : ∀ name : String, a.byName[name]? = r.idOf? name
  stack : a.stack.toList = r.stack.reverse
  rendered : a.rendered = r.rendered
  queries : a.queries = r.queries
  log : a.log = r.log

theorem mirrors_new (shared : Bool) : Mirrors { shared } { shared } where
  shared := rfl
  size := rfl
  descriptors := fun hd => by simp at hd
  index := fun _ => by simp [Registry.idOf?]
  stack := rfl
  rendered := rfl
  queries := rfl
  log := rfl

theorem Mirrors.exists_descriptor (h : a.Mirrors r) (he : r.entries[id]? = some e) :
    ∃ d, a.descriptors[id]? = some d ∧ d.Mirrors r id e := by
  have hlt : id < a.descriptors.size := by
    rw [h.size]
    exact Registry.lt_size he
  have hd : a.descriptors[id]? = some a.descriptors[id] := Array.getElem?_eq_getElem hlt
  exact ⟨_, hd, h.descriptors hd he⟩

theorem Mirrors.exists_entry (h : a.Mirrors r) (hd : a.descriptors[id]? = some d) :
    ∃ e, r.entries[id]? = some e ∧ d.Mirrors r id e := by
  have hlt : id < r.size := by
    rw [← h.size]
    exact (Array.getElem?_eq_some_iff.mp hd).1
  have he : r.entries[id]? = some r.entries[id] := Array.getElem?_eq_getElem hlt
  exact ⟨_, he, h.descriptors hd he⟩

/-! ### What both show -/

theorem Mirrors.view_eq (h : a.Mirrors r) (id : ClassId) :
    a.descriptors[id]?.map (·.view) = r.entries[id]?.map (·.view) := by
  cases he : r.entries[id]? with
  | none =>
    have hsize : a.descriptors.size ≤ id := h.size ▸ Array.getElem?_eq_none_iff.mp he
    rw [Array.getElem?_eq_none hsize, Option.map_none, Option.map_none]
  | some e =>
    obtain ⟨d, hd, hmirror⟩ := h.exists_descriptor he
    rw [hd, Option.map_some, Option.map_some, hmirror.view]

/-- An entry that is not on the stack itself is under way where a namesake is and entries are not
shared. -/
theorem Mirrors.isUnderWay_eq (h : a.Mirrors r) (hfree : id ∉ r.stack) :
    (!a.shared && a.isUnderWay e.name) = r.isUnderWay id e := by
  have hnamesake : ∀ other : ClassId, a.descriptors[other]?.any (fun d => d.name = e.name) =
      r.entries[other]?.any (fun e' => e'.name = e.name) := by
    intro other
    have hview := congrArg (Option.any fun v : ClassView => decide (v.name = e.name))
      (h.view_eq other)
    rw [Option.any_map, Option.any_map] at hview
    exact hview
  rw [Registry.isUnderWay, isUnderWay, ← Array.any_toList, h.stack, List.any_reverse, h.shared]
  simp only [hnamesake, hfree, decide_false, Bool.false_or]

theorem Mirrors.reusable?_eq (h : a.Mirrors r) (name : String) :
    a.reusable? name = (r.reusable? name).map (·.1) := by
  rw [reusable?, Registry.reusable?, h.shared, h.index]
  split
  · cases hid : r.idOf? name with
    | none => rw [Registry.find?_eq_none_iff.mpr hid, Option.map_none]
    | some id =>
      obtain ⟨⟨e, he, -⟩, -⟩ := Registry.idOf?_eq_some_iff.mp hid
      rw [Registry.find?_eq_some_iff.mpr ⟨hid, he⟩, Option.map_some]
  · rfl

/-- Of a resolved entry the surface is shown. -/
theorem Mirrors.exists_resolved (h : a.Mirrors r) (he : r.entries[id]? = some e)
    (hres : e.isResolved = true) :
    ∃ d, a.descriptors[id]? = some d ∧ d.view = e.view ∧ d.state = .resolved ∧
      e.surface = some d.toSurface := by
  obtain ⟨d, hd, hmirror⟩ := h.exists_descriptor he
  obtain ⟨surface, hsurf⟩ := Registry.isResolved_iff.mp hres
  have hstate : d.state = .resolved :=
    hmirror.state.trans (Registry.stateOf_eq_resolved_iff.mpr hres)
  have hcell := hmirror.surface (by simp [hstate])
  rw [hsurf, Option.getD_some] at hcell
  exact ⟨d, hd, hmirror.view, hstate, by rw [hsurf, hcell]⟩

/-- What methods inherit from resolved entries they inherit from their descriptors. -/
theorem Mirrors.inheritedReturn_eq (h : a.Mirrors r) {ids : List ClassId} {names : List String}
    (hp : List.Forall₂ r.Provides ids names) (hids : d.parent.toList ++ d.interfaces = ids)
    (m : String) : a.inheritedReturn d m = r.inheritedReturn ids m := by
  have hmethod : ∀ other ∈ ids,
      (a.descriptors[other]?.bind (·.methods[m]?)) = r.method? other m := by
    intro other hother
    obtain ⟨n, -, e, he, -, hres⟩ := Registry.exists_partner hp hother
    obtain ⟨o, ho, -, -, hsurf⟩ := h.exists_resolved he hres
    rw [Registry.method?, ho, he, Option.bind_some, Option.bind_some, Entry.method?, Entry.methods,
      hsurf]
    rfl
  rw [inheritedReturn, Registry.inheritedReturn, hids, Registry.findSome?_congr hmethod]

/-- A class that is resolved reads the same. -/
theorem Mirrors.text_eq (h : a.Mirrors r) (hd : a.descriptors[id]? = some d)
    (he : r.entries[id]? = some e) (hres : e.isResolved = true) : d.text = r.textOf id := by
  obtain ⟨o, ho, hview, -, hsurf⟩ := h.exists_resolved he hres
  obtain rfl : d = o := Option.some.inj (hd.symm.trans ho)
  rw [Registry.textOf, he, Option.map_some, Option.getD_some, Descriptor.text, ← hsurf, hview]
  rfl

/-! ### Single changes -/

theorem getElem?_write (a : Arena) (id : ClassId) (f : Descriptor → Descriptor) (i : ClassId) :
    (a.write id f).descriptors[i]? =
      if id = i then a.descriptors[i]?.map f else a.descriptors[i]? := Array.getElem?_modify

theorem getElem?_write_self (hd : a.descriptors[id]? = some d) (f : Descriptor → Descriptor) :
    (a.write id f).descriptors[id]? = some (f d) := by
  rw [getElem?_write, if_pos rfl, hd, Option.map_some]

theorem getElem?_write_of_ne {i : ClassId} (hi : i ≠ id) (f : Descriptor → Descriptor) :
    (a.write id f).descriptors[i]? = a.descriptors[i]? := by
  rw [getElem?_write, if_neg hi.symm]

theorem size_write (a : Arena) (id : ClassId) (f : Descriptor → Descriptor) :
    (a.write id f).descriptors.size = a.descriptors.size := Array.size_modify

theorem Mirrors.report (h : a.Mirrors r) (events : List Event) :
    (a.report events).Mirrors (r.report events) where
  shared := h.shared
  size := h.size
  descriptors := fun hd he => (h.descriptors hd he).congr rfl
  index := h.index
  stack := h.stack
  rendered := h.rendered
  queries := h.queries
  log := by rw [Arena.report, Registry.report, h.log]

/-- What is written into a descriptor in progress does not show, apart from its number, its view and
its state. -/
theorem Mirrors.write (h : a.Mirrors r) (hd : a.descriptors[id]? = some d)
    (hstate : d.state = .inProgress) {f : Descriptor → Descriptor} (hid : (f d).id = d.id)
    (hview : (f d).view = d.view) (hkeep : (f d).state = d.state) : (a.write id f).Mirrors r where
  shared := h.shared
  size := (size_write a id f).trans h.size
  descriptors := by
    intro i o e ho he
    by_cases hi : i = id
    · subst hi
      rw [getElem?_write_self hd] at ho
      obtain rfl := Option.some.inj ho
      have hmirror := h.descriptors hd he
      exact ⟨hid.trans hmirror.number, hview.trans hmirror.view, hkeep.trans hmirror.state,
        fun hne => absurd (hkeep.trans hstate) hne⟩
    · rw [getElem?_write_of_ne hi] at ho
      exact h.descriptors ho he
  index := h.index
  stack := h.stack
  rendered := h.rendered
  queries := h.queries
  log := h.log

theorem Mirrors.query (h : a.Mirrors r) :
    ({ a with queries := a.queries + 1 } : Arena).Mirrors r.countQuery where
  shared := h.shared
  size := h.size
  descriptors := fun hd he => (h.descriptors hd he).congr rfl
  index := h.index
  stack := h.stack
  rendered := h.rendered
  queries := congrArg (· + 1) h.queries
  log := h.log

theorem Mirrors.markRendered (h : a.Mirrors r) (id : ClassId) :
    (a.markRendered id).Mirrors (r.markRendered id) where
  shared := h.shared
  size := h.size
  descriptors := fun hd he => (h.descriptors hd he).congr rfl
  index := h.index
  stack := h.stack
  rendered := congrArg (·.push id) h.rendered
  queries := h.queries
  log := h.log

/-- What is on the stack has been registered. -/
theorem size_not_mem_stack (hs : Sound docs r) : r.size ∉ r.stack := by
  intro hmem
  obtain ⟨e, he, -⟩ := hs.stack_open r.size hmem
  exact Nat.lt_irrefl _ (Registry.lt_size he)

/-- A name leads to the new entry unless it led to another one before. -/
theorem idOf?_accept (r : Registry) (name : String) (view : ClassView) (n : String) :
    (r.accept name view).idOf? n = (r.idOf? n).or (if name = n then some r.size else none) := by
  rw [Registry.idOf?_eq_findIdx?, Registry.idOf?_eq_findIdx?, Registry.names_accept,
    List.findIdx?_append, Registry.length_names]
  congr 1
  by_cases hname : name = n <;> simp [hname]

theorem Mirrors.create (h : a.Mirrors r) (hs : Sound docs r) (name : String) (view : ClassView) :
    (({ a with queries := a.queries + 1 } : Arena).create name view).Mirrors
      (r.accept name view) where
  shared := h.shared
  size := by
    show (a.descriptors.push _).size = (r.entries.push _).size
    rw [Array.size_push, Array.size_push, h.size, Registry.size]
  descriptors := by
    intro i o e ho he
    have ho : (a.descriptors.push (.new a.descriptors.size view))[i]? = some o := ho
    rw [Array.getElem?_push, h.size] at ho
    rw [Registry.getElem?_accept] at he
    by_cases hi : i = r.size
    · rw [if_pos hi] at ho he
      cases ho
      cases he
      subst hi
      refine ⟨rfl, rfl, ?_, fun _ => rfl⟩
      have hstate : (r.accept name view).stateOf r.size (r.newEntry name view) = .pending := by
        rw [Registry.stateOf, if_neg (by simp [Entry.isResolved])]
        exact if_neg (size_not_mem_stack hs)
      exact hstate.symm
    · rw [if_neg hi] at ho he
      exact (h.descriptors ho he).congr rfl
  index := by
    intro n
    show (a.byName.insertIfNew name a.descriptors.size)[n]? = _
    rw [Std.HashMap.getElem?_insertIfNew, idOf?_accept, ← h.index, h.size]
    by_cases hmem : n ∈ a.byName
    · obtain ⟨i, hi⟩ := Option.isSome_iff_exists.mp
        (Std.HashMap.mem_iff_isSome_getElem?.mp hmem)
      rw [hi, Option.some_or, if_neg]
      rintro ⟨hname, hnew⟩
      exact hnew (beq_iff_eq.mp hname ▸ hmem)
    · rw [Std.HashMap.getElem?_eq_none hmem, Option.none_or]
      by_cases hname : name = n
      · subst hname
        rw [if_pos ⟨beq_self_eq_true name, hmem⟩, if_pos rfl]
      · rw [if_neg (fun h => hname (beq_iff_eq.mp h.1)), if_neg hname]
  stack := h.stack
  rendered := h.rendered
  queries := congrArg (· + 1) h.queries
  log := h.log

theorem getElem?_takeUp (hd : a.descriptors[id]? = some d) (name : String) :
    (a.takeUp id name).descriptors[id]? = some { d with state := .inProgress } :=
  getElem?_write_self hd _

/-- A descriptor is taken up: it is in progress now, and on the stack. -/
theorem Mirrors.takeUp (h : a.Mirrors r) (hd : a.descriptors[id]? = some d)
    (he : r.entries[id]? = some e) (hpending : d.state = .pending) :
    (a.takeUp id d.name).Mirrors (r.takeUp id e) where
  shared := h.shared
  size := (size_write ..).trans h.size
  descriptors := by
    intro i o e' ho he'
    have ho : (a.write id ({ · with state := .inProgress })).descriptors[i]? = some o := ho
    by_cases hi : i = id
    · subst hi
      rw [getElem?_write_self hd] at ho
      cases ho
      cases he.symm.trans he'
      have hmirror := h.descriptors hd he
      obtain ⟨hopen, -⟩ := Registry.stateOf_eq_pending_iff.mp (hmirror.state.symm.trans hpending)
      exact ⟨hmirror.number, hmirror.view,
        (Registry.stateOf_eq_inProgress_iff.mpr ⟨hopen, List.mem_cons_self⟩).symm,
        fun hne => absurd rfl hne⟩
    · rw [getElem?_write_of_ne hi] at ho
      refine (h.descriptors ho he').congr (Registry.stateOf_congr rfl ?_)
      show i ∈ id :: r.stack ↔ i ∈ r.stack
      simp [hi]
  index := h.index
  stack := by
    show (a.stack.push id).toList = (id :: r.stack).reverse
    rw [Array.toList_push, h.stack, List.reverse_cons]
  rendered := h.rendered
  queries := h.queries
  log := by
    show a.log ++ [Event.resolving d.name] = r.log ++ [Event.resolving e.name]
    rw [h.log, (h.descriptors hd he).name_eq]

/-- The innermost descriptor leaves the stack and is changed, and its entry may have changed with
it. -/
theorem Mirrors.leave {below : List ClassId} {f : Descriptor → Descriptor} {e' : Entry}
    (h : a.Mirrors r) (htop : r.stack = id :: below) (hd : a.descriptors[id]? = some d)
    (hentry : s.entries[id]? = some e') (hother : ∀ i, i ≠ id → s.entries[i]? = r.entries[i]?)
    (hnames : s.names = r.names) (hstack : s.stack = below)
    (hrest : s.shared = r.shared ∧ s.rendered = r.rendered ∧ s.queries = r.queries ∧ s.log = r.log)
    (hmirror : (f d).Mirrors s id e') : (a.pop.write id f).Mirrors s where
  shared := h.shared.trans hrest.1.symm
  size := by
    rw [← Registry.length_names s, hnames, Registry.length_names, ← h.size]
    exact size_write a.pop id f
  descriptors := by
    intro i o e₁ ho he₁
    have ho : (a.write id f).descriptors[i]? = some o := ho
    by_cases hi : i = id
    · subst hi
      rw [getElem?_write_self hd] at ho
      cases ho
      cases hentry.symm.trans he₁
      exact hmirror
    · rw [getElem?_write_of_ne hi] at ho
      rw [hother i hi] at he₁
      refine Descriptor.Mirrors.congr (h.descriptors ho he₁) (Registry.stateOf_congr rfl ?_)
      rw [hstack, htop, List.mem_cons]
      simp [hi]
  index := by
    intro n
    rw [Registry.idOf?_eq_findIdx?, hnames, ← Registry.idOf?_eq_findIdx?]
    exact h.index n
  stack := by
    show a.stack.pop.toList = s.stack.reverse
    rw [Array.toList_pop, h.stack, htop, List.reverse_cons, List.dropLast_concat, hstack]
  rendered := h.rendered.trans hrest.2.1.symm
  queries := h.queries.trans hrest.2.2.1.symm
  log := h.log.trans hrest.2.2.2.symm

/-- The innermost descriptor is given up, and is as it was before it was taken up. -/
theorem Mirrors.reset {below : List ClassId} (h : a.Mirrors r) (hs : Sound docs r)
    (htop : r.stack = id :: below) (hd : a.descriptors[id]? = some d) :
    (a.pop.write id Descriptor.reset).Mirrors r.leave := by
  obtain ⟨e, he, hmirror⟩ := h.exists_entry hd
  have hopen := hs.open_of_top htop he
  have hnodup := hs.stack_nodup
  rw [htop, List.nodup_cons] at hnodup
  have hbelow : r.leave.stack = below := by
    show r.stack.tail = below
    rw [htop, List.tail_cons]
  refine h.leave htop hd he (fun _ _ => rfl) rfl hbelow ⟨rfl, rfl, rfl, rfl⟩
    ⟨hmirror.number, hmirror.view, ?_, fun _ => ?_⟩
  · exact (Registry.stateOf_eq_pending_iff.mpr ⟨hopen, by rw [hbelow]; exact hnodup.1⟩).symm
  · rw [Registry.surface_eq_none hopen]
    rfl

/-- The innermost descriptor is completed: what has been written of its surface is the surface that
the entry is given. -/
theorem Mirrors.complete {below ids : List ClassId} {v : ClassView}
    (h : a.Mirrors (r.report (r.surfaceEvents docs v ids))) (htop : r.stack = id :: below)
    (hd : a.descriptors[id]? = some d) (hsurface : d.toSurface = r.surface docs id v ids) :
    (a.pop.write id ({ · with state := .resolved })).Mirrors (r.complete docs id v ids).leave := by
  obtain ⟨e, he, hmirror⟩ := h.exists_entry hd
  have hentry : (r.complete docs id v ids).leave.entries[id]? =
      some { e with surface := some (r.surface docs id v ids) } := by
    rw [Registry.getElem?_complete, if_pos rfl, show r.entries[id]? = some e from he]
    rfl
  refine h.leave htop hd hentry (fun i hi => ?_) (Registry.names_complete ..) ?_
    ⟨rfl, rfl, rfl, rfl⟩ ⟨hmirror.number, hmirror.view, ?_, fun _ => hsurface⟩
  · rw [Registry.getElem?_complete, if_neg hi.symm]
    rfl
  · show r.stack.tail = below
    rw [htop, List.tail_cons]
  · exact (Registry.stateOf_eq_resolved_iff.mpr rfl).symm

end Arena

end ClassSurface
