import ClassSurface.Proofs.Registry.Inheritance
import ClassSurface.Proofs.Registry.Persistence
import ClassSurface.Proofs.Registry.Queries
import Mathlib.Data.List.Nodup

/-! # Proofs.Registry.References — which entries refer to which

Where entries are shared, there is one entry for each name that the source has answered, and all
references to a name lead to it (`Indexed`). Where they are not, every reference leads to an entry
that was made for it, behind the entry that refers: the references form a forest, with the entries
that nothing refers to for roots (`Forest`).

* `Sound.idOf?_eq_some_iff`: in a shared registry, the index is the inverse of `names`.
* `requestWithin_branches`: without sharing, a request adds references to new entries only, and none
  to the entry that it gives. So this entry is free to be referred to, once.
-/

namespace ClassSurface.Registry

open Relation

variable {ctx : Context} {docs : DocReader} {r s t : Registry} {id : ClassId} {e : Entry}
  {name : String}

/-! ### Shared entries -/

section Shared

variable (hs : Sound docs r) (hshared : r.shared = true)
include hs hshared

theorem Sound.idOf?_eq_some_iff :
    r.idOf? name = some id ↔ ∃ e, r.entries[id]? = some e ∧ e.requested = name := by
  rw [Registry.idOf?_eq_some_iff]
  constructor
  · exact fun h => h.1
  · rintro ⟨e, he, hname⟩
    refine ⟨⟨e, he, hname⟩, fun j hj o ho heq => ?_⟩
    exact Nat.ne_of_lt hj (hs.unique hshared ho he (heq.trans hname.symm))

theorem Sound.idOf?_eq_some_iff_names : r.idOf? name = some id ↔ r.names[id]? = some name := by
  rw [hs.idOf?_eq_some_iff hshared, getElem?_names, Option.map_eq_some_iff]

/-- No two entries were requested under one name. -/
theorem Sound.nodup_names : r.names.Nodup := by
  rw [List.nodup_iff_pairwise_ne, List.pairwise_iff_getElem]
  intro i j hi hj hij heq
  have hi' : r.idOf? r.names[i] = some i :=
    (hs.idOf?_eq_some_iff_names hshared).mpr (List.getElem?_eq_getElem hi)
  have hj' : r.idOf? r.names[j] = some j :=
    (hs.idOf?_eq_some_iff_names hshared).mpr (List.getElem?_eq_getElem hj)
  rw [heq, hj'] at hi'
  have hji : j = i := Option.some.inj hi'
  omega

/-- Entries that provide names are those that the index gives for them. -/
theorem Sound.map_idOf?_eq {ids : List ClassId} {names : List String}
    (h : List.Forall₂ r.Provides ids names) : ids.map some = names.map r.idOf? := by
  induction h with
  | nil => rfl
  | cons hp _ ih =>
    obtain ⟨e, he, hname, -⟩ := hp
    rw [List.map_cons, List.map_cons, ih,
      (hs.idOf?_eq_some_iff hshared).mpr ⟨e, he, hname⟩]

end Shared

/-- The entries of `r` belong to `names`, one to each name and in this order, and references by name
lead to them. -/
structure Indexed (names : List String) (r : Registry) : Prop where
  nodup : names.Nodup
  size : names.length = r.size
  /-- The index leads from each of the names to its entry. -/
  index : ∀ (name : String) (id : ClassId), r.idOf? name = some id ↔ names[id]? = some name
  answered : ∀ name : String, (∃ id, r.idOf? name = some id) ↔ name ∈ names
  registered : ∀ id < r.size, ∃! name, r.idOf? name = some id
  parent : ∀ (id : ClassId) (e : Entry), r.entries[id]? = some e → r.stateOf id e = .resolved →
    e.parent.toList.map some = e.view.parent.toList.map r.idOf?
  interfaces : ∀ (id : ClassId) (e : Entry), r.entries[id]? = some e →
    r.stateOf id e = .resolved → e.interfaces.map some = e.view.interfaces.map r.idOf?
  /-- What two entries name alike is one entry. -/
  common : ∀ (id id' : ClassId) (e e' : Entry), r.entries[id]? = some e →
    r.entries[id']? = some e' → r.stateOf id e = .resolved → r.stateOf id' e' = .resolved →
    ∀ (i j : Nat) (name : String), e.view.ancestors[i]? = some name →
      e'.view.ancestors[j]? = some name → ∃ a, e.ancestors[i]? = some a ∧ e'.ancestors[j]? = some a

/-- The entry that a resolved entry refers to in the place of a name. -/
theorem Sound.getElem?_ancestors (hs : Sound docs r) (hshared : r.shared = true)
    (he : r.entries[id]? = some e) (hres : e.isResolved = true) {i : Nat}
    (hi : e.view.ancestors[i]? = some name) :
    ∃ a, e.ancestors[i]? = some a ∧ r.idOf? name = some a := by
  have hmap := hs.map_idOf?_eq hshared (hs.provides_ancestors he hres)
  have hith := congrArg (·[i]?) hmap
  simp only [List.getElem?_map, hi, Option.map_some] at hith
  obtain ⟨a, ha, heq⟩ := Option.map_eq_some_iff.mp hith
  exact ⟨a, ha, heq.symm⟩

theorem Sound.indexed (hs : Sound docs r) (hshared : r.shared = true) : Indexed r.names r where
  nodup := hs.nodup_names hshared
  size := length_names r
  index := fun name id => hs.idOf?_eq_some_iff_names hshared
  answered := by
    intro name
    rw [List.mem_iff_getElem?]
    simp only [hs.idOf?_eq_some_iff_names hshared]
  registered := by
    intro id hid
    have hid : id < r.names.length := by rwa [length_names]
    refine ⟨r.names[id], (hs.idOf?_eq_some_iff_names hshared).mpr (List.getElem?_eq_getElem hid),
      fun name hname => ?_⟩
    have hname : r.names[id]? = some name := (hs.idOf?_eq_some_iff_names hshared).mp hname
    rw [List.getElem?_eq_getElem hid] at hname
    exact (Option.some.inj hname).symm
  parent := fun id e he hres => hs.map_idOf?_eq hshared
    (hs.provides_parent_interfaces he (stateOf_eq_resolved_iff.mp hres)).1
  interfaces := fun id e he hres => hs.map_idOf?_eq hshared
    (hs.provides_parent_interfaces he (stateOf_eq_resolved_iff.mp hres)).2
  common := by
    intro id id' e e' he he' hres hres' i j name hi hj
    obtain ⟨a, ha, hname⟩ :=
      hs.getElem?_ancestors hshared he (stateOf_eq_resolved_iff.mp hres) hi
    obtain ⟨b, hb, hname'⟩ :=
      hs.getElem?_ancestors hshared he' (stateOf_eq_resolved_iff.mp hres') hj
    obtain rfl : a = b := Option.some.inj (hname.symm.trans hname')
    exact ⟨a, ha, hb⟩

/-! ### Forests -/

/-- References lead to entries further behind, and no entry is referred to twice. -/
structure Branches (r : Registry) : Prop where
  upward : ∀ {a b : ClassId}, r.Refers a b → a < b
  /-- No entry refers to one and the same twice. -/
  nodup : ∀ {id : ClassId} {e : Entry}, r.entries[id]? = some e → e.ancestors.Nodup
  /-- No two entries refer to one and the same. -/
  apart : ∀ {a b c : ClassId}, r.Refers a c → r.Refers b c → a = b

theorem refers_of_mem {a : ClassId} (he : r.entries[id]? = some e) (ha : a ∈ e.ancestors) :
    r.Refers id a :=
  ⟨e, he, mem_ancestors_iff.mp ha⟩

theorem Branches.of_entries_eq (h : Branches r) (he : s.entries = r.entries) : Branches s := by
  have hrefers : s.Refers = r.Refers := by
    funext a b
    rw [Refers, Refers, he]
  refine ⟨?_, ?_, ?_⟩
  · rw [hrefers]
    exact h.upward
  · rw [he]
    exact h.nodup
  · rw [hrefers]
    exact h.apart

theorem refers_of_accept {view : ClassView} {a b : ClassId}
    (h : (r.accept name view).Refers a b) : r.Refers a b := by
  obtain ⟨e, he, hb⟩ := h
  rcases getElem?_accept_eq_some he with ⟨-, rfl⟩ | he
  · rw [← mem_ancestors_iff, ancestors_eq_nil rfl] at hb
    exact absurd hb List.not_mem_nil
  · exact ⟨e, he, hb⟩

theorem Branches.accept (h : Branches r) (name : String) (view : ClassView) :
    Branches (r.accept name view) where
  upward := fun hab => h.upward (refers_of_accept hab)
  nodup := by
    intro id e he
    rcases getElem?_accept_eq_some he with ⟨-, rfl⟩ | he
    · rw [ancestors_eq_nil rfl]
      exact List.nodup_nil
    · exact h.nodup he
  apart := fun hac hbc => h.apart (refers_of_accept hac) (refers_of_accept hbc)

section Complete

variable {ids : List ClassId} (he : r.entries[id]? = some e)
  (hlen : ids.length = e.view.ancestors.length)
include he hlen

/-- The references after a completion are those from before and those of the completed entry. -/
theorem refers_of_complete {a b : ClassId}
    (h : (r.complete docs id e.view ids).leave.Refers a b) :
    r.Refers a b ∨ a = id ∧ b ∈ ids := by
  obtain ⟨e', he', hb⟩ := h
  rcases getElem?_complete_eq_some he he' with ⟨rfl, rfl⟩ | ⟨-, he'⟩
  · rw [← mem_ancestors_iff, ancestors_of_surface rfl, surface_ancestors hlen] at hb
    exact .inr ⟨rfl, hb⟩
  · exact .inl ⟨e', he', hb⟩

/-- Entries that nothing refers to may be referred to once, from further in front. -/
theorem Branches.complete (h : Branches r) (hnodup : ids.Nodup) (hup : ∀ a ∈ ids, id < a)
    (hfree : ∀ a ∈ ids, ∀ b, ¬ r.Refers b a) :
    Branches (r.complete docs id e.view ids).leave where
  upward := by
    intro a b hab
    rcases refers_of_complete he hlen hab with hab | ⟨rfl, hb⟩
    · exact h.upward hab
    · exact hup b hb
  nodup := by
    intro i e' he'
    rcases getElem?_complete_eq_some he he' with ⟨rfl, rfl⟩ | ⟨-, he'⟩
    · rw [ancestors_of_surface rfl, surface_ancestors hlen]
      exact hnodup
    · exact h.nodup he'
  apart := by
    intro a b c hac hbc
    rcases refers_of_complete he hlen hac with hac' | ⟨ha, hac'⟩ <;>
      rcases refers_of_complete he hlen hbc with hbc' | ⟨hb, hbc'⟩
    · exact h.apart hac' hbc'
    · exact absurd hac' (hfree c hbc' a)
    · exact absurd hbc' (hfree c hac' b)
    · rw [ha, hb]

end Complete

/-! ### Requests without sharing -/

/-- The references of `s` that are not in `r` lead to entries from number `bound` on. -/
def RefersBeyond (bound : Nat) (r s : Registry) : Prop :=
  ∀ ⦃a b : ClassId⦄, s.Refers a b → r.Refers a b ∨ bound ≤ b

theorem RefersBeyond.refl (bound : Nat) (r : Registry) : RefersBeyond bound r r :=
  fun _ _ h => .inl h

theorem RefersBeyond.trans {bound bound' : Nat} (h : RefersBeyond bound r t)
    (h' : RefersBeyond bound' t s) (hle : bound ≤ bound') : RefersBeyond bound r s := by
  intro a b hab
  rcases h' hab with hab | hb
  · exact h hab
  · exact .inr (by omega)

/-- What lies between the entries of `r` and the bound is not referred to. -/
theorem RefersBeyond.free {bound : Nat} (h : RefersBeyond bound r s) (hs : Sound docs r)
    {a : ClassId} (hsize : r.size ≤ a) (ha : a < bound) (b : ClassId) : ¬ s.Refers b a := by
  intro hba
  rcases h hba with hba | hle
  · exact Nat.not_lt_of_le hsize (hs.lt_of_refers hba).2
  · exact Nat.not_lt_of_le hle ha

/-- Requests give a new entry that nothing refers to, and add references between new entries
only. -/
def KeepsBranches (ctx : Context) (request : String → Registry → Outcome ClassId) : Prop :=
  ∀ ⦃name : String⦄ ⦃r : Registry⦄ ⦃res : Except ResolveError ClassId⦄ ⦃s : Registry⦄,
    Sound ctx.docs r → r.shared = false → Branches r → request name r = some (res, s) →
      Branches s ∧ RefersBeyond (r.size + 1) r s ∧
        ∀ id, res = .ok id → id = r.size ∧ r.size < s.size

section Nested

variable {request : String → Registry → Outcome ClassId}

theorem requestAll_branches (hreq : Delivers ctx request) (hkeep : KeepsBranches ctx request) :
    ∀ (names : List String) {r : Registry} {res : Except ResolveError (List ClassId)}
      {s : Registry}, Sound ctx.docs r → r.shared = false → Branches r →
      requestAll request names r = some (res, s) →
      Branches s ∧ RefersBeyond (r.size + 1) r s ∧ ∀ ids, res = .ok ids →
        ids.Nodup ∧ ∀ a ∈ ids, r.size ≤ a ∧ ∀ b, ¬ s.Refers b a
  | [], r, res, s, _, _, hr, h => by
    cases h
    refine ⟨hr, .refl _ r, fun ids hids => ?_⟩
    cases hids
    exact ⟨List.nodup_nil, fun a ha => absurd ha List.not_mem_nil⟩
  | name :: names, r, res, s, hs, hmode, hr, h => by
    rcases requestAll_cons_eq_some h with ⟨error, hname, rfl⟩ | ⟨id, t, res', hname, hall, rfl⟩
    · obtain ⟨hbranch, hbeyond, -⟩ := hkeep hs hmode hr hname
      exact ⟨hbranch, hbeyond, fun ids hids => nomatch hids⟩
    · obtain ⟨hbranch, hbeyond, hid⟩ := hkeep hs hmode hr hname
      obtain ⟨rfl, hlt⟩ := hid id rfl
      have hsteps := (hreq hs hname).1.steps
      have ht := hsteps.sound hs
      obtain ⟨hbranch', hbeyond', hids'⟩ := requestAll_branches hreq hkeep names ht
        ((hsteps.grows hs).shared.trans hmode) hbranch hall
      have hboth : RefersBeyond (r.size + 1) r s := hbeyond.trans hbeyond' (by omega)
      refine ⟨hbranch', hboth, fun ids hids => ?_⟩
      cases res' with
      | error error => cases hids
      | ok rest =>
        cases hids
        obtain ⟨hnodup, hrest⟩ := hids' rest rfl
        refine ⟨List.nodup_cons.mpr ⟨fun hmem => ?_, hnodup⟩, fun a ha => ?_⟩
        · have hle := (hrest _ hmem).1
          omega
        · rcases List.mem_cons.mp ha with rfl | ha
          · exact ⟨Nat.le_refl _, hboth.free hs (Nat.le_refl _) (Nat.lt_succ_self _)⟩
          · obtain ⟨hle, hfree⟩ := hrest a ha
            exact ⟨by omega, hfree⟩

/-- An attempt to resolve an entry gives it references to new entries only. -/
theorem Resolving.branches (hreq : Delivers ctx request) (hkeep : KeepsBranches ctx request)
    (hs : Sound ctx.docs r) (hmode : r.shared = false) (hr : Branches r)
    (he : r.entries[id]? = some e) {res : Except ResolveError Unit}
    (h : Resolving ctx.docs request id e r res s) : Branches s ∧ RefersBeyond r.size r s := by
  cases h with
  | before => exact ⟨hr, .refl _ r⟩
  | reentered => exact ⟨hr, .refl _ r⟩
  | failed hopen hfree error t hall =>
    have henter : Step ctx r (r.takeUp id e) := .enter id e he hopen hfree
    have hs₁ := henter.sound hs
    obtain ⟨hbranch, hbeyond, -⟩ :=
      requestAll_branches hreq hkeep _ hs₁ hmode (hr.of_entries_eq rfl) hall
    exact ⟨hbranch.of_entries_eq rfl, fun a b hab => (hbeyond hab).imp_right Nat.le_of_succ_le⟩
  | completed hopen hfree ancestors t hall =>
    have henter : Step ctx r (r.takeUp id e) := .enter id e he hopen hfree
    have hs₁ := henter.sound hs
    obtain ⟨hbranch, hbeyond, hids⟩ :=
      requestAll_branches hreq hkeep _ hs₁ hmode (hr.of_entries_eq rfl) hall
    obtain ⟨hnodup, hnew⟩ := hids ancestors rfl
    obtain ⟨hrun, hprov⟩ := requestAll_delivers hreq _ hs₁ hall
    -- the entry has kept its view while its ancestors were requested
    obtain ⟨e', he', -, -, hview, -⟩ := (hrun.steps.grows hs₁).entries he
    have hlen : ancestors.length = e'.view.ancestors.length := by
      rw [hview]
      exact (hprov ancestors rfl).length_eq
    have hup : ∀ a ∈ ancestors, id < a :=
      fun a ha => Nat.lt_of_lt_of_le (lt_size he) (hnew a ha).1
    rw [← hview]
    refine ⟨hbranch.complete he' hlen hnodup hup fun a ha => (hnew a ha).2, fun a b hab => ?_⟩
    rcases refers_of_complete he' hlen hab with hab | ⟨rfl, hb⟩
    · exact (hbeyond hab).imp_right Nat.le_of_succ_le
    · exact .inr (hnew b hb).1

end Nested

theorem requestWithin_branches (ctx : Context) (depth : Nat) :
    KeepsBranches ctx (requestWithin ctx depth) := by
  induction depth with
  | zero =>
    intro name r res s hs hmode hr h
    cases h
  | succ depth ih =>
    intro name r res s hs hmode hr h
    have hreq := requestWithin_delivers ctx depth
    cases requesting_of_requestWithin h with
    | found id e res _ hfound =>
      simp [reusable?, hmode] at hfound
    | refused => exact ⟨hr.of_entries_eq rfl, .refl _ r, fun id hid => by cases hid⟩
    | accepted view res _ hmiss hanswer run =>
      have haccept := accept_excursion hmiss hanswer
      have hs₁ := haccept.steps.sound hs
      obtain ⟨hbranch, hbeyond⟩ := run.branches hreq ih hs₁ hmode (hr.accept name view)
        (getElem?_accept_size r name view)
      have hsize : (r.accept name view).size = r.size + 1 := Array.size_push ..
      obtain ⟨hrun, -⟩ := run.delivers hreq hs₁ (getElem?_accept_size r name view)
      have hgrown := (hrun.steps.grows hs₁).size_le
      rw [hsize] at hbeyond hgrown
      refine ⟨hbranch, fun a b hab => (hbeyond hab).imp_left refers_of_accept, fun id hid => ?_⟩
      cases res with
      | error error => cases hid
      | ok _ =>
        cases hid
        exact ⟨rfl, by omega⟩

/-! ### After any history -/

theorem preserved_branches (ctx : Context) :
    Preserved ctx fun r => r.shared = false → Branches r where
  request := by
    intro r s name res hs _ hr h hmode
    have hmode' := ((request_excursion hs h).steps.grows hs).shared.symm.trans hmode
    exact (requestWithin_branches ctx _ hs hmode' (hr hmode') h).1
  resolve := by
    intro r s id hid res hs _ hr h hmode
    have hmode' := ((resolve_steps hs hid) h).1.grows hs |>.shared.symm.trans hmode
    exact ((resolving_of_resolveWith h).branches (requestWithin_delivers ctx _)
      (requestWithin_branches ctx _) hs hmode' (hr hmode') (Array.getElem?_eq_getElem hid)).1
  render := fun id hr hmode => (hr hmode).of_entries_eq rfl

theorem Reachable.branches (h : Reachable ctx false r) : Branches r := by
  have hnew : Branches { shared := false } := ⟨by simp [Refers], by simp, by simp [Refers]⟩
  exact (preserved_branches ctx).of_reachable (fun _ => hnew) h (h.steps.grows (sound_new _ _)).shared

/-- The references of all entries, each entry's parent before its interfaces. -/
def targets (r : Registry) : List ClassId :=
  r.entries.toList.flatMap fun e => e.parent.toList ++ e.interfaces

/-- References lead to entries further behind, no entry is referred to twice, and so every entry is
reached from exactly one that nothing refers to. -/
structure Forest (r : Registry) : Prop where
  upward : ∀ a b : ClassId, r.Refers a b → a < b
  nodup : r.targets.Nodup
  root : ∀ id < r.size, ∃! root, (∀ a, ¬ r.Refers a root) ∧ ReflTransGen r.Refers root id

theorem Branches.nodup_targets (h : Branches r) : r.targets.Nodup := by
  have hat : ∀ i (hi : i < r.entries.toList.length), r.entries[i]? = some r.entries.toList[i] := by
    intro i hi
    rw [← Array.getElem?_toList, List.getElem?_eq_getElem hi]
  rw [targets, List.nodup_flatMap]
  constructor
  · intro e he
    obtain ⟨i, hi, rfl⟩ := List.mem_iff_getElem.mp he
    exact h.nodup (hat i hi)
  · rw [List.pairwise_iff_getElem]
    intro i j hi hj hij a ha hb
    have heq : i = j := h.apart (refers_of_mem (hat i hi) ha) (refers_of_mem (hat j hj) hb)
    omega

/-- The way back from an entry, by the one reference to it, ends at one root. -/
theorem Branches.existsUnique_root (h : Branches r) (id : ClassId) :
    ∃! root, (∀ a, ¬ r.Refers a root) ∧ ReflTransGen r.Refers root id := by
  induction id using Nat.strongRecOn with
  | _ id ih =>
    by_cases hsource : ∃ a, r.Refers a id
    · obtain ⟨a, ha⟩ := hsource
      obtain ⟨root, ⟨hfree, hreach⟩, honly⟩ := ih a (h.upward ha)
      refine ⟨root, ⟨hfree, hreach.tail ha⟩, ?_⟩
      rintro other ⟨hfree', hreach'⟩
      rcases hreach'.cases_tail with rfl | ⟨b, hb, hbid⟩
      · exact absurd ha (hfree' a)
      · obtain rfl : b = a := h.apart hbid ha
        exact honly other ⟨hfree', hb⟩
    · refine ⟨id, ⟨fun a ha => hsource ⟨a, ha⟩, .refl⟩, ?_⟩
      rintro other ⟨-, hreach'⟩
      rcases hreach'.cases_tail with rfl | ⟨b, -, hbid⟩
      · rfl
      · exact absurd ⟨b, hbid⟩ hsource

/-- **Sharing discipline**: whatever the source answers, after any operations that came to an end,
failed ones included, a shared registry has one entry for each name that the source has answered,
and references by name lead to these entries; in a registry without sharing, the references form a
forest. -/
theorem sharing_discipline (ctx : Context) (shared : Bool) (ops : List Op)
    (answers : List (Except ResolveError Answer)) (r : Registry)
    (h : play ctx ops { shared } = some (answers, r)) :
    (shared = true → Indexed (answeredNames (queriesOf ctx ops { shared })) r) ∧
      (shared = false → r.Forest) := by
  have hreach : Reachable ctx shared r := ⟨ops, answers, h⟩
  have hmode : r.shared = shared := (hreach.steps.grows (sound_new _ shared)).shared
  have hnames : r.names = answeredNames (queriesOf ctx ops { shared }) :=
    (queriesOf_asks ctx ops h).names
  constructor
  · rintro rfl
    rw [← hnames]
    exact hreach.sound.indexed hmode
  · rintro rfl
    have hbranch := hreach.branches
    exact ⟨fun a b => hbranch.upward, hbranch.nodup_targets,
      fun id _ => hbranch.existsUnique_root id⟩

/-- An interface that a class has twice over is one entry or two. -/
theorem sharing_discipline_diamond : ∃ answers r answers' r',
    play (diamond.context .rejecting) [.request "Leaf"] { shared := true } = some (answers, r) ∧
    Indexed ["Leaf", "Base", "Named"] r ∧
    play (diamond.context .rejecting) [.request "Leaf"] { shared := false } = some (answers', r') ∧
    r'.targets = [1, 3, 2] ∧ r'.Forest := by
  have hshared : (play (diamond.context .rejecting) [.request "Leaf"] { shared := true }).isSome ∧
      answeredNames (queriesOf (diamond.context .rejecting) [.request "Leaf"] { shared := true }) =
        ["Leaf", "Base", "Named"] := by
    decide +kernel
  have halone : (play (diamond.context .rejecting) [.request "Leaf"] { shared := false }).map
      (fun p => p.2.targets) = some [1, 3, 2] := by
    decide +kernel
  obtain ⟨⟨answers, r⟩, hr⟩ := Option.isSome_iff_exists.mp hshared.1
  obtain ⟨⟨answers', r'⟩, hr', htargets⟩ := Option.map_eq_some_iff.mp halone
  have hindexed := (sharing_discipline _ true _ answers r hr).1 rfl
  rw [hshared.2] at hindexed
  exact ⟨answers, r, answers', r', hr, hindexed, hr', htargets,
    (sharing_discipline _ false _ answers' r' hr').2 rfl⟩

end ClassSurface.Registry
