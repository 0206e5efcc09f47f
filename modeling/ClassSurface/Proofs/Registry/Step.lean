import ClassSurface.Registry.Document
import Mathlib.Algebra.Order.BigOperators.Group.List
import Mathlib.Algebra.Order.Group.Nat
import Mathlib.Data.List.Forall2
import Mathlib.Logic.Relation

/-! # Proofs.Registry.Step — what can happen to a registry, one event at a time

Whatever a registry is asked for, its state changes by the six kinds of `Step` only: the source
refuses a name, the source's view of a name is registered, an entry is taken up, an entry is given
up, an entry is completed, or a class is written down. Every invariant is proved for one step and
then holds of whole runs.

* `Grows r s`: entries stay where they are with their views, resolved ones unchanged.
* `Sound`: what holds between any two steps, also while requests are under way.
* `Step.grows`, `Step.sound`: a step from a sound registry only adds to it and leaves it sound.
-/

namespace ClassSurface

/-- The entries that an entry refers to: its parent, then its interfaces. -/
def Entry.ancestors (e : Entry) : List ClassId := e.parent.toList ++ e.interfaces

namespace Registry

open Relation

variable {ctx : Context} {docs : DocReader} {r s t : Registry} {id : ClassId} {e : Entry}
  {name : String}

/-- The entry number `id` was requested under `name` and is resolved. -/
def Provides (r : Registry) (id : ClassId) (name : String) : Prop :=
  ∃ e, r.entries[id]? = some e ∧ e.requested = name ∧ e.isResolved = true

/-- One change of a registry, with the condition under which it happens. -/
inductive Step (ctx : Context) (r : Registry) : Registry → Prop where
  /-- The source is asked in vain. -/
  | refuse (name : String) (error : SourceError) (miss : r.reusable? name = none)
      (answer : ctx.source.answer r.queries name = .error error) : Step ctx r r.countQuery
  /-- The view that the source gives is registered under the name asked for. -/
  | accept (name : String) (view : ClassView) (miss : r.reusable? name = none)
      (answer : ctx.source.answer r.queries name = .ok view) :
      Step ctx r (r.accept name view)
  /-- An entry that is neither resolved nor under way is taken up. -/
  | enter (id : ClassId) (e : Entry) (at_id : r.entries[id]? = some e)
      (open_ : e.isResolved = false) (free : r.isUnderWay id e = false) :
      Step ctx r (r.takeUp id e)
  /-- The innermost entry is given up. -/
  | abandon (id : ClassId) (below : List ClassId) (top : r.stack = id :: below) : Step ctx r r.leave
  /-- The innermost entry is completed; its ancestors are resolved. -/
  | complete (id : ClassId) (below : List ClassId) (e : Entry) (ancestors : List ClassId)
      (top : r.stack = id :: below) (at_id : r.entries[id]? = some e)
      (provided : List.Forall₂ r.Provides ancestors e.view.ancestors) :
      Step ctx r (r.complete ctx.docs id e.view ancestors).leave
  /-- A resolved class is written down. -/
  | render (id : ClassId) (e : Entry) (at_id : r.entries[id]? = some e)
      (done : e.isResolved = true) : Step ctx r (r.markRendered id)

/-- Any number of steps. -/
def Steps (ctx : Context) : Registry → Registry → Prop := ReflTransGen (Step ctx)

/-! ### Growth -/

/-- `s` holds all that `r` holds: entries keep their numbers, names and views, a resolved entry is
the same, and what was written down stays written down. -/
structure Grows (r s : Registry) : Prop where
  shared : s.shared = r.shared
  entries : ∀ {id : ClassId} {e : Entry}, r.entries[id]? = some e → ∃ e', s.entries[id]? = some e' ∧
    e'.id = e.id ∧ e'.requested = e.requested ∧ e'.view = e.view ∧ (e.isResolved = true → e' = e)
  rendered : r.rendered.toList <+: s.rendered.toList

theorem Grows.refl (r : Registry) : Grows r r :=
  ⟨rfl, fun {_ e} h => ⟨e, h, rfl, rfl, rfl, fun _ => rfl⟩, List.prefix_rfl⟩

theorem Grows.trans (h : Grows r s) (h' : Grows s t) : Grows r t := by
  refine ⟨h'.shared.trans h.shared, fun {id e} he => ?_, h.rendered.trans h'.rendered⟩
  obtain ⟨e₁, h₁, hid₁, hreq₁, hview₁, hsame₁⟩ := h.entries he
  obtain ⟨e₂, h₂, hid₂, hreq₂, hview₂, hsame₂⟩ := h'.entries h₁
  refine ⟨e₂, h₂, hid₂.trans hid₁, hreq₂.trans hreq₁, hview₂.trans hview₁, fun hres => ?_⟩
  have hsame := hsame₁ hres
  exact (hsame₂ (by rw [hsame]; exact hres)).trans hsame

theorem Grows.of_entries_eq (hs : s.shared = r.shared) (he : s.entries = r.entries)
    (hr : r.rendered.toList <+: s.rendered.toList) : Grows r s :=
  ⟨hs, fun {_ e} h => ⟨e, by rw [he]; exact h, rfl, rfl, rfl, fun _ => rfl⟩, hr⟩

theorem Grows.getElem?_of_resolved (h : Grows r s) (he : r.entries[id]? = some e)
    (hres : e.isResolved = true) : s.entries[id]? = some e := by
  obtain ⟨e', he', -, -, -, hsame⟩ := h.entries he
  rw [he', hsame hres]

theorem Provides.mono (h : r.Provides id name) (hg : Grows r s) : s.Provides id name := by
  obtain ⟨e, he, hname, hres⟩ := h
  exact ⟨e, hg.getElem?_of_resolved he hres, hname, hres⟩

theorem Provides.method?_eq (h : r.Provides id name) (hg : Grows r s) :
    s.method? id = r.method? id := by
  obtain ⟨e, he, -, hres⟩ := h
  funext m
  rw [method?, method?, he, hg.getElem?_of_resolved he hres]

theorem forall₂_provides_mono {ids : List ClassId} {names : List String}
    (h : List.Forall₂ r.Provides ids names) (hg : Grows r s) : List.Forall₂ s.Provides ids names :=
  h.imp fun _ _ hp => hp.mono hg

/-- In lists that match, every member has its partner. -/
theorem exists_partner {α β : Type} {R : α → β → Prop} {l : List α} {l' : List β}
    (h : List.Forall₂ R l l') {a : α} (ha : a ∈ l) : ∃ b ∈ l', R a b := by
  induction h with
  | nil => simp at ha
  | cons hab _ ih =>
    rcases List.mem_cons.mp ha with rfl | ha
    · exact ⟨_, List.mem_cons_self, hab⟩
    · obtain ⟨b, hb, hab⟩ := ih ha
      exact ⟨b, List.mem_cons_of_mem _ hb, hab⟩

theorem findSome?_congr {α β : Type} {f g : α → Option β} {l : List α} (h : ∀ a ∈ l, f a = g a) :
    l.findSome? f = l.findSome? g := by
  induction l with
  | nil => rfl
  | cons a l ih =>
    rw [List.findSome?_cons, List.findSome?_cons, h a List.mem_cons_self,
      ih fun b hb => h b (List.mem_cons_of_mem _ hb)]

/-- The return type taken from ancestors depends on them only through their methods. -/
theorem inheritedReturn_congr {ids : List ClassId} (h : ∀ a ∈ ids, s.method? a = r.method? a)
    (m : String) : s.inheritedReturn ids m = r.inheritedReturn ids m := by
  have hfind : ids.findSome? (s.method? · m) = ids.findSome? (r.method? · m) :=
    findSome?_congr fun a ha => congrFun (h a ha) m
  rw [inheritedReturn, inheritedReturn, hfind]

theorem surface_congr {ids : List ClassId} (h : ∀ a ∈ ids, s.method? a = r.method? a)
    (v : ClassView) : s.surface docs id v ids = r.surface docs id v ids := by
  simp only [surface, signatures, inheritedReturn_congr h]

theorem surface_eq_of_grows {ids : List ClassId} {names : List String}
    (h : List.Forall₂ r.Provides ids names) (hg : Grows r s) (v : ClassView) :
    s.surface docs id v ids = r.surface docs id v ids := by
  refine surface_congr (fun a ha => ?_) v
  obtain ⟨n, -, hp⟩ := exists_partner h ha
  exact hp.method?_eq hg

/-! ### Entries after a step -/

theorem lt_size (he : r.entries[id]? = some e) : id < r.size := (Array.getElem?_eq_some_iff.mp he).1

theorem getElem?_accept (r : Registry) (name : String) (view : ClassView) (i : ClassId) :
    (r.accept name view).entries[i]? =
      if i = r.size then some (r.newEntry name view) else r.entries[i]? :=
  Array.getElem?_push

theorem getElem?_accept_size (r : Registry) (name : String) (view : ClassView) :
    (r.accept name view).entries[r.size]? = some (r.newEntry name view) := by
  rw [getElem?_accept, if_pos rfl]

theorem getElem?_complete (r : Registry) (docs : DocReader) (id : ClassId) (v : ClassView)
    (ids : List ClassId) (i : ClassId) :
    (r.complete docs id v ids).leave.entries[i]? =
      if id = i then (r.entries[i]?).map ({ · with surface := some (r.surface docs id v ids) })
      else r.entries[i]? :=
  Array.getElem?_modify

theorem idOf?_eq_none_iff :
    r.idOf? name = none ↔
      ∀ (id : ClassId) (e : Entry), r.entries[id]? = some e → e.requested ≠ name := by
  rw [idOf?, Array.findIdx?_eq_none_iff]
  constructor
  · intro h id e he
    simpa using h e (Array.mem_of_getElem? he)
  · intro h e he
    obtain ⟨id, hid⟩ := Array.mem_iff_getElem?.mp he
    simpa using h id e hid

/-- The index leads to the first entry that was requested under a name. -/
theorem idOf?_eq_some_iff :
    r.idOf? name = some id ↔ (∃ e, r.entries[id]? = some e ∧ e.requested = name) ∧
      ∀ j < id, ∀ e, r.entries[j]? = some e → e.requested ≠ name := by
  rw [idOf?, Array.findIdx?_eq_some_iff_getElem]
  constructor
  · rintro ⟨hlt, hname, hfirst⟩
    refine ⟨⟨r.entries[id], Array.getElem?_eq_getElem hlt, by simpa using hname⟩, ?_⟩
    intro j hj e he
    have hj' := hfirst j hj
    rw [Array.getElem?_eq_getElem (Nat.lt_trans hj hlt)] at he
    cases he
    simpa using hj'
  · rintro ⟨⟨e, he, hname⟩, hfirst⟩
    obtain ⟨hlt, rfl⟩ := Array.getElem?_eq_some_iff.mp he
    refine ⟨hlt, by simpa using hname, fun j hj => ?_⟩
    simpa using hfirst j hj _ (Array.getElem?_eq_getElem (Nat.lt_trans hj hlt))

theorem find?_eq_some_iff :
    r.find? name = some (id, e) ↔ r.idOf? name = some id ∧ r.entries[id]? = some e := by
  rw [find?, Option.bind_eq_some_iff]
  constructor
  · rintro ⟨i, hi, he⟩
    obtain ⟨e', he', heq⟩ := Option.map_eq_some_iff.mp he
    cases heq
    exact ⟨hi, he'⟩
  · rintro ⟨hi, he⟩
    exact ⟨id, hi, by rw [he]; rfl⟩

theorem find?_eq_none_iff : r.find? name = none ↔ r.idOf? name = none := by
  cases h : r.idOf? name with
  | none => simp [find?, h]
  | some id =>
    obtain ⟨⟨e, he, -⟩, -⟩ := idOf?_eq_some_iff.mp h
    simp [find?, h, he]

/-! ### The invariant -/

/-- The surface of a resolved entry is the one put together from its view and from entries that
provide the ancestors it names. -/
def Settled (docs : DocReader) (r : Registry) (id : ClassId) (e : Entry) : Prop :=
  ∀ surface, e.surface = some surface → ∃ ancestors,
    List.Forall₂ r.Provides ancestors e.view.ancestors ∧
      surface = r.surface docs id e.view ancestors

/-- What holds of a registry at every moment, whatever the source answers. -/
structure Sound (docs : DocReader) (r : Registry) : Prop where
  numbered : ∀ {id : ClassId} {e : Entry}, r.entries[id]? = some e → e.id = id
  stack_nodup : r.stack.Nodup
  /-- What is under way is not resolved. -/
  stack_open : ∀ id ∈ r.stack, ∃ e, r.entries[id]? = some e ∧ e.isResolved = false
  /-- Where entries are shared, no two were requested under one name. -/
  unique : r.shared = true → ∀ {i j : ClassId} {e e' : Entry}, r.entries[i]? = some e →
    r.entries[j]? = some e' → e.requested = e'.requested → i = j
  settled : ∀ {id : ClassId} {e : Entry}, r.entries[id]? = some e → r.Settled docs id e
  /-- The references between entries can be numbered so that all point downwards. -/
  ranked : ∃ rank : ClassId → Nat, ∀ {id : ClassId} {e : Entry}, r.entries[id]? = some e →
    ∀ a ∈ e.ancestors, rank a < rank id
  rendered_resolved : ∀ id ∈ r.rendered, ∃ e, r.entries[id]? = some e ∧ e.isResolved = true

theorem Settled.mono (h : r.Settled docs id e) (hg : Grows r s) : s.Settled docs id e := by
  intro surface hsurf
  obtain ⟨ancestors, hp, rfl⟩ := h surface hsurf
  exact ⟨ancestors, forall₂_provides_mono hp hg, (surface_eq_of_grows hp hg e.view).symm⟩

/-- Nothing is lost when ancestors are told apart into parent and interfaces. -/
theorem surface_ancestors {v : ClassView} {ids : List ClassId}
    (h : ids.length = v.ancestors.length) :
    (r.surface docs id v ids).parent.toList ++ (r.surface docs id v ids).interfaces = ids := by
  rw [ClassView.ancestors] at h
  cases hp : v.parent with
  | none => simp [surface, hp]
  | some parent =>
    cases ids with
    | nil => simp [hp] at h
    | cons a ids => simp [surface, hp]

theorem isResolved_iff : e.isResolved = true ↔ ∃ surface, e.surface = some surface := by
  rw [Entry.isResolved, Option.isSome_iff_exists]

theorem surface_eq_none (h : e.isResolved = false) : e.surface = none := by
  simpa [Entry.isResolved] using h

theorem stateOf_eq_resolved_iff : r.stateOf id e = .resolved ↔ e.isResolved = true := by
  rw [stateOf]
  split
  · simp_all
  · split <;> simp_all

/-- The state of an entry depends on whether it is resolved and on whether it is on the stack. -/
theorem stateOf_congr {e' : Entry} (hres : e'.isResolved = e.isResolved)
    (hmem : id ∈ s.stack ↔ id ∈ r.stack) : s.stateOf id e' = r.stateOf id e := by
  simp only [stateOf, hres, hmem]

theorem stateOf_eq_pending_iff :
    r.stateOf id e = .pending ↔ e.isResolved = false ∧ id ∉ r.stack := by
  rw [stateOf]
  cases e.isResolved <;> by_cases hmem : id ∈ r.stack <;> simp [hmem]

theorem stateOf_eq_inProgress_iff :
    r.stateOf id e = .inProgress ↔ e.isResolved = false ∧ id ∈ r.stack := by
  rw [stateOf]
  cases e.isResolved <;> by_cases hmem : id ∈ r.stack <;> simp [hmem]

theorem ancestors_eq_nil (h : e.isResolved = false) : e.ancestors = [] := by
  simp [Entry.ancestors, Entry.parent, Entry.interfaces, surface_eq_none h]

theorem ancestors_of_surface {surface : Surface} (h : e.surface = some surface) :
    e.ancestors = surface.parent.toList ++ surface.interfaces := by
  simp [Entry.ancestors, Entry.parent, Entry.interfaces, h]

/-- A resolved entry refers to resolved entries, one for each ancestor that its view names. -/
theorem Sound.provides_ancestors (h : Sound docs r) (he : r.entries[id]? = some e)
    (hres : e.isResolved = true) : List.Forall₂ r.Provides e.ancestors e.view.ancestors := by
  obtain ⟨surface, hsurf⟩ := isResolved_iff.mp hres
  obtain ⟨ids, hp, rfl⟩ := h.settled he surface hsurf
  rw [ancestors_of_surface hsurf, surface_ancestors hp.length_eq]
  exact hp

/-- References lead to resolved entries only. -/
theorem Sound.resolved_of_mem_ancestors (h : Sound docs r) (he : r.entries[id]? = some e)
    {a : ClassId} (ha : a ∈ e.ancestors) : ∃ n ∈ e.view.ancestors, r.Provides a n := by
  cases hres : e.isResolved with
  | false => simp [ancestors_eq_nil hres] at ha
  | true => exact exists_partner (h.provides_ancestors he hres) ha

theorem Provides.ne_of_open {a : ClassId} (h : r.Provides a name) (he : r.entries[id]? = some e)
    (hopen : e.isResolved = false) : a ≠ id := by
  rintro rfl
  obtain ⟨e', he', -, hres⟩ := h
  rw [he] at he'
  cases he'
  rw [hopen] at hres
  cases hres

/-! ### One step -/

theorem Sound.open_of_top (h : Sound docs r) {below : List ClassId} (htop : r.stack = id :: below)
    (he : r.entries[id]? = some e) : e.isResolved = false := by
  obtain ⟨e', he', hopen⟩ := h.stack_open id (by rw [htop]; exact List.mem_cons_self)
  rw [he] at he'
  cases he'
  exact hopen

theorem getElem?_accept_of_some (he : r.entries[id]? = some e) (name : String) (view : ClassView) :
    (r.accept name view).entries[id]? = some e := by
  rw [getElem?_accept, if_neg (Nat.ne_of_lt (lt_size he)), he]

theorem grows_accept (r : Registry) (name : String) (view : ClassView) :
    Grows r (r.accept name view) :=
  ⟨rfl, fun {_ e} he => ⟨e, getElem?_accept_of_some he name view, rfl, rfl, rfl, fun _ => rfl⟩,
    List.prefix_rfl⟩

theorem grows_complete (he : r.entries[id]? = some e) (hopen : e.isResolved = false)
    (ids : List ClassId) : Grows r (r.complete docs id e.view ids).leave := by
  refine ⟨rfl, fun {i e'} he' => ?_, List.prefix_rfl⟩
  rw [getElem?_complete]
  by_cases hi : id = i
  · subst hi
    obtain rfl : e = e' := Option.some.inj (he.symm.trans he')
    rw [if_pos rfl, he]
    exact ⟨_, rfl, rfl, rfl, rfl, fun hres => absurd hres (by simp [hopen])⟩
  · rw [if_neg hi]
    exact ⟨e', he', rfl, rfl, rfl, fun _ => rfl⟩

/-- A step from a sound registry only adds to it. -/
theorem Step.grows (hs : Sound docs r) (h : Step ctx r s) : Grows r s := by
  cases h with
  | refuse => exact .of_entries_eq rfl rfl List.prefix_rfl
  | accept name view => exact grows_accept r name view
  | enter => exact .of_entries_eq rfl rfl List.prefix_rfl
  | abandon => exact .of_entries_eq rfl rfl List.prefix_rfl
  | complete id below e ancestors htop he =>
    exact grows_complete he (hs.open_of_top htop he) ancestors
  | render id => exact .of_entries_eq rfl rfl (by simp [markRendered])

/-- A change of stack and of what is written down leaves the rest of the invariant alone. -/
theorem Sound.of_entries_eq (h : Sound docs r) (hg : Grows r s) (he : s.entries = r.entries)
    (hnodup : s.stack.Nodup)
    (hopen : ∀ id ∈ s.stack, ∃ e, r.entries[id]? = some e ∧ e.isResolved = false)
    (hrendered : ∀ id ∈ s.rendered, ∃ e, r.entries[id]? = some e ∧ e.isResolved = true) :
    Sound docs s where
  numbered := by rw [he]; exact h.numbered
  stack_nodup := hnodup
  stack_open := by rw [he]; exact hopen
  unique := by rw [he, hg.shared]; exact h.unique
  settled := by
    rw [he]
    exact fun hid => (h.settled hid).mono hg
  ranked := by rw [he]; exact h.ranked
  rendered_resolved := by rw [he]; exact hrendered

/-- An entry of the grown registry is the new one or one from before. -/
theorem getElem?_accept_eq_some {view : ClassView}
    (h : (r.accept name view).entries[id]? = some e) :
    (id = r.size ∧ e = r.newEntry name view) ∨ r.entries[id]? = some e := by
  rw [getElem?_accept] at h
  by_cases hid : id = r.size
  · rw [if_pos hid] at h
    exact .inl ⟨hid, (Option.some.inj h).symm⟩
  · rw [if_neg hid] at h
    exact .inr h

theorem Sound.accept (h : Sound docs r) (view : ClassView) (hmiss : r.reusable? name = none) :
    Sound docs (r.accept name view) where
  numbered := by
    intro id e he
    rcases getElem?_accept_eq_some he with ⟨rfl, rfl⟩ | he
    · rfl
    · exact h.numbered he
  stack_nodup := h.stack_nodup
  stack_open := by
    intro id hid
    obtain ⟨e, he, hopen⟩ := h.stack_open id hid
    exact ⟨e, getElem?_accept_of_some he _ _, hopen⟩
  unique := by
    intro hshared i j e e' hi hj heq
    have hfresh : ∀ (id : ClassId) (e : Entry), r.entries[id]? = some e → e.requested ≠ name := by
      rw [← idOf?_eq_none_iff, ← find?_eq_none_iff]
      rw [reusable?, show r.shared = true from hshared] at hmiss
      exact hmiss
    rcases getElem?_accept_eq_some hi with ⟨rfl, rfl⟩ | hi <;>
      rcases getElem?_accept_eq_some hj with ⟨rfl, rfl⟩ | hj
    · rfl
    · exact absurd heq.symm (hfresh j e' hj)
    · exact absurd heq (hfresh i e hi)
    · exact h.unique hshared hi hj heq
  settled := by
    intro id e he
    rcases getElem?_accept_eq_some he with ⟨-, rfl⟩ | he
    · intro surface hsurf
      cases hsurf
    · exact (h.settled he).mono (grows_accept r _ _)
  ranked := by
    obtain ⟨rank, hrank⟩ := h.ranked
    refine ⟨rank, fun {id e} he => ?_⟩
    rcases getElem?_accept_eq_some he with ⟨-, rfl⟩ | he
    · rw [ancestors_eq_nil rfl]
      simp
    · exact hrank he
  rendered_resolved := by
    intro id hid
    obtain ⟨e, he, hres⟩ := h.rendered_resolved id hid
    exact ⟨e, (grows_accept r _ _).getElem?_of_resolved he hres, hres⟩

/-- An entry of the registry after a completion is the completed one or one from before. -/
theorem getElem?_complete_eq_some {ids : List ClassId} {i : ClassId} {e' : Entry}
    (he : r.entries[id]? = some e)
    (h : (r.complete docs id e.view ids).leave.entries[i]? = some e') :
    (i = id ∧ e' = { e with surface := some (r.surface docs id e.view ids) }) ∨
      (i ≠ id ∧ r.entries[i]? = some e') := by
  rw [getElem?_complete] at h
  by_cases hi : id = i
  · subst hi
    rw [if_pos rfl, he] at h
    exact .inl ⟨rfl, (Option.some.inj h).symm⟩
  · rw [if_neg hi] at h
    exact .inr ⟨Ne.symm hi, h⟩

/-- The innermost entry gets a new rank, above those of its ancestors; nothing refers to it yet. -/
theorem Sound.ranked_complete (h : Sound docs r) (he : r.entries[id]? = some e)
    (hopen : e.isResolved = false) {ids : List ClassId}
    (hp : List.Forall₂ r.Provides ids e.view.ancestors) :
    ∃ rank : ClassId → Nat, ∀ {i : ClassId} {e' : Entry},
      (r.complete docs id e.view ids).leave.entries[i]? = some e' →
        ∀ a ∈ e'.ancestors, rank a < rank i := by
  obtain ⟨rank, hrank⟩ := h.ranked
  refine ⟨fun i => if i = id then (ids.map rank).sum + 1 else rank i, fun {i e'} he' a ha => ?_⟩
  rcases getElem?_complete_eq_some he he' with ⟨rfl, rfl⟩ | ⟨hi, he'⟩
  · rw [ancestors_of_surface rfl, surface_ancestors hp.length_eq] at ha
    obtain ⟨n, -, hpa⟩ := exists_partner hp ha
    have hle : rank a ≤ (ids.map rank).sum := List.le_sum_of_mem (List.mem_map_of_mem ha)
    simp only [hpa.ne_of_open he hopen, if_false, if_true]
    omega
  · obtain ⟨n, -, hpa⟩ := h.resolved_of_mem_ancestors he' ha
    simp only [hpa.ne_of_open he hopen, hi, if_false]
    exact hrank he' a ha

theorem Sound.complete (h : Sound docs r) {below : List ClassId} (htop : r.stack = id :: below)
    (he : r.entries[id]? = some e) {ids : List ClassId}
    (hp : List.Forall₂ r.Provides ids e.view.ancestors) :
    Sound docs (r.complete docs id e.view ids).leave := by
  have hopen := h.open_of_top htop he
  have hg : Grows r (r.complete docs id e.view ids).leave := grows_complete he hopen ids
  have hstack : (r.complete docs id e.view ids).leave.stack = below := by
    show r.stack.tail = below
    rw [htop, List.tail_cons]
  have hnodup := h.stack_nodup
  rw [htop, List.nodup_cons] at hnodup
  refine ⟨?_, by rw [hstack]; exact hnodup.2, ?_, ?_, ?_, h.ranked_complete he hopen hp, ?_⟩
  · intro i e' he'
    rcases getElem?_complete_eq_some he he' with ⟨rfl, rfl⟩ | ⟨-, he'⟩
    · show e.id = i
      exact h.numbered he
    · exact h.numbered he'
  · intro i hi
    rw [hstack] at hi
    obtain ⟨e', he', hopen'⟩ := h.stack_open i (by rw [htop]; exact List.mem_cons_of_mem _ hi)
    refine ⟨e', ?_, hopen'⟩
    rw [getElem?_complete, if_neg (by rintro rfl; exact hnodup.1 hi), he']
  · intro hshared i j e₁ e₂ hi hj heq
    have hold : ∀ {i : ClassId} {e' : Entry},
        (r.complete docs id e.view ids).leave.entries[i]? = some e' →
          ∃ e₀, r.entries[i]? = some e₀ ∧ e₀.requested = e'.requested := by
      intro i e' he'
      rcases getElem?_complete_eq_some he he' with ⟨rfl, rfl⟩ | ⟨-, he'⟩
      · exact ⟨e, he, rfl⟩
      · exact ⟨e', he', rfl⟩
    obtain ⟨e₁', hi, heq₁⟩ := hold hi
    obtain ⟨e₂', hj, heq₂⟩ := hold hj
    exact h.unique hshared hi hj (by rw [heq₁, heq₂, heq])
  · intro i e' he'
    rcases getElem?_complete_eq_some he he' with ⟨rfl, rfl⟩ | ⟨-, he'⟩
    · rintro surface hsurf
      cases hsurf
      exact ⟨ids, forall₂_provides_mono hp hg, (surface_eq_of_grows hp hg e.view).symm⟩
    · exact (h.settled he').mono hg
  · intro i hi
    obtain ⟨e', he', hres⟩ := h.rendered_resolved i hi
    exact ⟨e', hg.getElem?_of_resolved he' hres, hres⟩

/-- A step from a sound registry leaves it sound. -/
theorem Step.sound (hs : Sound ctx.docs r) (h : Step ctx r s) : Sound ctx.docs s := by
  have hg := h.grows hs
  cases h with
  | refuse => exact hs.of_entries_eq hg rfl hs.stack_nodup hs.stack_open hs.rendered_resolved
  | accept name view hmiss => exact hs.accept view hmiss
  | enter id e he hopen hfree =>
    have hid : id ∉ r.stack := by
      intro hid
      simp [isUnderWay, hid] at hfree
    refine hs.of_entries_eq hg rfl (List.nodup_cons.mpr ⟨hid, hs.stack_nodup⟩) ?_
      hs.rendered_resolved
    intro i hi
    rcases List.mem_cons.mp hi with rfl | hi
    · exact ⟨e, he, hopen⟩
    · exact hs.stack_open i hi
  | abandon id below htop =>
    have htail : r.leave.stack = r.stack.tail := rfl
    exact hs.of_entries_eq hg rfl (hs.stack_nodup.sublist (List.tail_sublist _))
      (fun i hi => hs.stack_open i (List.mem_of_mem_tail (htail ▸ hi))) hs.rendered_resolved
  | complete id below e ancestors htop he hp => exact hs.complete htop he hp
  | render id e he hres =>
    refine hs.of_entries_eq hg rfl hs.stack_nodup hs.stack_open fun i hi => ?_
    rcases Array.mem_push.mp hi with hi | rfl
    · exact hs.rendered_resolved i hi
    · exact ⟨e, he, hres⟩

/-! ### Runs -/

theorem Steps.sound (hs : Sound ctx.docs r) (h : Steps ctx r s) : Sound ctx.docs s := by
  induction h with
  | refl => exact hs
  | tail _ hstep ih => exact hstep.sound ih

theorem Steps.grows (hs : Sound ctx.docs r) (h : Steps ctx r s) : Grows r s := by
  induction h with
  | refl => exact .refl r
  | tail hsteps hstep ih => exact ih.trans (hstep.grows (Steps.sound hs hsteps))

/-- A registry without entries is sound. -/
theorem sound_of_empty (he : r.entries = #[]) (hs : r.stack = []) (hr : r.rendered = #[]) :
    Sound docs r where
  numbered := by simp [he]
  stack_nodup := by rw [hs]; exact List.nodup_nil
  stack_open := by simp [hs]
  unique := by simp [he]
  settled := by simp [he]
  ranked := ⟨fun _ => 0, by simp [he]⟩
  rendered_resolved := by simp [hr]

end Registry

end ClassSurface
