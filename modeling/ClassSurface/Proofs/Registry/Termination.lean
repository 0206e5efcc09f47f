import ClassSurface.Proofs.Registry.Moments
import ClassSurface.Proofs.Registry.Resolvability
import Mathlib.Data.Set.Card

/-! # Proofs.Registry.Termination — operations end, and never have much under way

A source is finite if its answers stay the same and it has views of finitely many names. Whatever
these views say of each other, cycles included and under whatever names, every operation comes to an
end, and at each of its moments there are no more entries under way than the source has names.

* `Step.classesUnderWay_nodup`: without sharing, no class is under way twice.
* `SteadySound.bounded_at`: what holds of the entries under way at every moment.
* `Op.perform_within`: an operation that comes to an end does so in the same way if requests may
  nest deeper, so the greatest depth has no part in what it comes to.
* `operations_end`: all of this together, for every finite source.
-/

namespace ClassSurface

/-- The same source and reader, with requests that may nest `depth` deep. -/
def Context.nesting (ctx : Context) (depth : Nat) : Context := ⟨{ ctx.source with depth }, ctx.docs⟩

namespace Registry

variable {ctx : Context} {docs : DocReader} {view : String → Except SourceError ClassView}
  {r s : Registry} {id : ClassId} {e : Entry}

/-! ### Classes under way -/

/-- The classes under way, the innermost first. -/
def classesUnderWay (r : Registry) : List String :=
  r.stack.filterMap fun id => r.entries[id]?.map Entry.name

/-- What grows keeps the names of its classes. -/
theorem filterMap_name_eq_of_grows (hg : Grows r s) {ids : List ClassId}
    (hids : ∀ id ∈ ids, ∃ e, r.entries[id]? = some e) :
    ids.filterMap (fun id => s.entries[id]?.map Entry.name) =
      ids.filterMap fun id => r.entries[id]?.map Entry.name := by
  refine List.filterMap_congr fun id hid => ?_
  obtain ⟨e, he⟩ := hids id hid
  obtain ⟨e', he', -, -, hview, -⟩ := hg.entries he
  rw [he, he', Option.map_some, Option.map_some, Entry.name, Entry.name, hview]

theorem length_classesUnderWay (hs : Sound docs r) :
    r.classesUnderWay.length = r.stack.length := by
  rw [classesUnderWay, List.length_filterMap_eq_countP, List.countP_eq_length]
  intro id hid
  obtain ⟨e, he⟩ := hs.entry_of_mem_stack id hid
  simp [he]

/-- Without sharing, an entry is not taken up while its class is under way. -/
theorem name_not_mem_classesUnderWay (hmode : r.shared = false)
    (hfree : r.isUnderWay id e = false) : e.name ∉ r.classesUnderWay := by
  intro hmem
  obtain ⟨other, hother, ho⟩ := List.mem_filterMap.mp hmem
  obtain ⟨o, ho, hname⟩ := Option.map_eq_some_iff.mp ho
  have hany : (r.stack.any fun other => r.entries[other]?.any (·.name = e.name)) = true := by
    rw [List.any_eq_true]
    exact ⟨other, hother, by simp [ho, hname]⟩
  simp [isUnderWay, hmode, hany] at hfree

theorem Step.classesUnderWay_nodup (hs : Sound ctx.docs r) (hmode : r.shared = false)
    (hnodup : r.classesUnderWay.Nodup) (h : Step ctx r s) : s.classesUnderWay.Nodup := by
  have hg := h.grows hs
  have htail : (r.stack.tail.filterMap fun id => s.entries[id]?.map Entry.name).Nodup := by
    rw [filterMap_name_eq_of_grows hg fun id hid =>
      hs.entry_of_mem_stack id (List.mem_of_mem_tail hid)]
    exact hnodup.sublist ((List.tail_sublist _).filterMap _)
  cases h with
  | refuse => exact hnodup
  | accept name v =>
    show (r.stack.filterMap fun id => (r.accept name v).entries[id]?.map Entry.name).Nodup
    rw [filterMap_name_eq_of_grows hg hs.entry_of_mem_stack]
    exact hnodup
  | enter id e he _ hfree =>
    show ((id :: r.stack).filterMap fun id => r.entries[id]?.map Entry.name).Nodup
    rw [List.filterMap_cons_some (by rw [he, Option.map_some])]
    exact List.nodup_cons.mpr ⟨name_not_mem_classesUnderWay hmode hfree, hnodup⟩
  | abandon => exact htail
  | complete => exact htail
  | render => exact hnodup

theorem Steps.classesUnderWay_nodup (hs : Sound ctx.docs r) (hmode : r.shared = false)
    (hnodup : r.classesUnderWay.Nodup) (h : Steps ctx r s) : s.classesUnderWay.Nodup := by
  induction h with
  | refl => exact hnodup
  | tail hsteps hstep ih =>
    have hmode' := (Steps.grows hs hsteps).shared.trans hmode
    exact hstep.classesUnderWay_nodup (Steps.sound hs hsteps) hmode' ih

/-! ### Finite sources -/

/-- The names that there is a view of. -/
def answered (view : String → Except SourceError ClassView) : Set String :=
  {name | ∃ v, view name = .ok v}

/-- The source gives the answers of `view` whenever it is asked, has finitely many names, and lets
requests nest once deeper than there are names. -/
structure FiniteSource (ctx : Context) (view : String → Except SourceError ClassView) : Prop where
  steady : Steady ctx view
  depth : (answered view).encard < ctx.source.depth

/-- The entries under way at a moment: no more than there are names, with sharing requested under
different names, without sharing of different classes. -/
structure BoundedAt (view : String → Except SourceError ClassView) (r : Registry) : Prop where
  length_le : (r.stack.length : ℕ∞) ≤ (answered view).encard
  /-- Every entry under way has been requested under a name, and is of a class. -/
  complete : r.underWay.length = r.stack.length ∧ r.classesUnderWay.length = r.stack.length
  requested_nodup : r.shared = true → r.underWay.Nodup
  classes_nodup : r.shared = false → r.classesUnderWay.Nodup

/-- A finite source, its names listed once each. -/
theorem FiniteSource.exists_bounded (h : FiniteSource ctx view) :
    ∃ names : List String, Bounded ctx view names ∧ (answered view).encard = names.length := by
  have hfin : (answered view).Finite := by
    rw [← Set.encard_lt_top_iff]
    exact h.depth.trans_le le_top
  have hcard : (answered view).encard = hfin.toFinset.toList.length := by
    rw [hfin.encard_eq_coe_toFinset_card, Finset.length_toList]
  refine ⟨hfin.toFinset.toList, ⟨h.steady, fun n v hv => ?_, ?_⟩, hcard⟩
  · rw [Finset.mem_toList, hfin.mem_toFinset]
    exact ⟨v, hv⟩
  · have hdepth := h.depth
    rw [hcard] at hdepth
    exact_mod_cast hdepth

theorem SteadySound.bounded_at (hs : SteadySound docs view r)
    (hclasses : r.shared = false → r.classesUnderWay.Nodup) {names : List String}
    (hnames : ∀ n v, view n = .ok v → n ∈ names)
    (hcard : (answered view).encard = names.length) : BoundedAt view r where
  length_le := by
    rw [hcard]
    exact_mod_cast hs.length_stack_le hnames
  complete := ⟨length_namesOf hs.entry_of_mem_stack, length_classesUnderWay hs.toSound⟩
  requested_nodup := fun _ => hs.underWay_nodup
  classes_nodup := hclasses

/-- No more names are in a list than it is long. -/
theorem encard_mem_le_length (l : List String) : {n | n ∈ l}.encard ≤ l.length := by
  rw [← List.coe_toFinset, Set.encard_coe_eq_coe_finsetCard]
  exact_mod_cast List.toFinset_card_le l

/-- A codebase under an overlay has no more names than both together, whatever classes the views of
the overlay describe. -/
theorem finiteSource_of_codebase (c : Codebase) (overlay : Overlay) (docs : DocReader) :
    FiniteSource ⟨c.source overlay, docs⟩ (c.viewThrough overlay) where
  steady := fun _ _ => rfl
  depth := by
    have hsub : answered (c.viewThrough overlay) ⊆ {n | n ∈ c.names ++ overlay.keys} := by
      rintro n ⟨v, hv⟩
      rw [Codebase.viewThrough] at hv
      split at hv
      · rename_i hfound
        refine List.mem_append_right _ (Std.TreeMap.mem_keys.mpr ?_)
        rw [← Std.TreeMap.isSome_getElem?_iff_mem, hfound]
        rfl
      · exact List.mem_append_left _ ((c.bounded docs).mem_names n v hv)
    have hlen : (c.names ++ overlay.keys).length = c.size + overlay.size := by
      rw [List.length_append, Std.TreeMap.length_keys, Codebase.names, List.length_map,
        Codebase.size]
    have hle := (Set.encard_le_encard hsub).trans (encard_mem_le_length _)
    rw [hlen] at hle
    refine hle.trans_lt ?_
    show ((c.size + overlay.size : ℕ) : ℕ∞) < ((c.size + overlay.size + 1 : ℕ) : ℕ∞)
    exact_mod_cast Nat.lt_succ_self _

end Registry

/-! ### The depth does not matter -/

/-- `o'` comes to what `o` comes to, if that comes to an end. -/
def Outcome.Within {α : Type} (o o' : Outcome α) : Prop :=
  ∀ ⦃x : Except ResolveError α × Registry⦄, o = some x → o' = some x

theorem Outcome.Within.refl {α : Type} (o : Outcome α) : o.Within o := fun _ h => h

theorem Outcome.Within.andThen {α β : Type} {o o' : Outcome α} {f f' : α → Registry → Outcome β}
    (ho : o.Within o') (hf : ∀ a r, (f a r).Within (f' a r)) :
    (o.andThen f).Within (o'.andThen f') := by
  intro x h
  rcases o with _ | ⟨error | a, r⟩
  · cases h
  · rw [ho rfl]
    exact h
  · rw [ho rfl]
    exact hf a r h

namespace Registry

variable {ctx : Context} {docs : DocReader}

section Nested

variable {request request' : String → Registry → Outcome ClassId}
  (hreq : ∀ name r, (request name r).Within (request' name r))
include hreq

theorem requestAll_within (names : List String) (r : Registry) :
    (requestAll request names r).Within (requestAll request' names r) := by
  induction names generalizing r with
  | nil => exact .refl _
  | cons name names ih => exact (hreq name r).andThen fun id t => (ih t).andThen fun _ _ => .refl _

theorem resolveWith_within (id : ClassId) (e : Entry) (r : Registry) :
    (resolveWith docs request id e r).Within (resolveWith docs request' id e r) := by
  intro x h
  rw [resolveWith] at h ⊢
  split
  · rename_i hres
    rwa [if_pos hres] at h
  · rename_i hopen
    rw [if_neg hopen] at h
    split
    · rename_i hway
      rwa [if_pos hway] at h
    · rename_i hfree
      rw [if_neg hfree] at h
      cases hall : requestAll request e.view.ancestors (r.takeUp id e) with
      | none =>
        rw [hall] at h
        cases h
      | some res =>
        rw [hall] at h
        rw [requestAll_within hreq _ _ hall]
        exact h

end Nested

/-- A request that comes to an end does so in the same way if it may nest deeper. -/
theorem requestWithin_within (ctx : Context) {depth depth' : Nat} (hle : depth ≤ depth')
    (name : String) (r : Registry) :
    (requestWithin ctx depth name r).Within (requestWithin ctx depth' name r) := by
  induction depth generalizing depth' name r with
  | zero =>
    intro x h
    cases h
  | succ depth ih =>
    obtain ⟨deeper, rfl⟩ : ∃ deeper, depth' = deeper + 1 := ⟨depth' - 1, by omega⟩
    have hreq : ∀ name r,
        (requestWithin ctx depth name r).Within (requestWithin ctx deeper name r) :=
      fun name r => ih (by omega) name r
    rw [requestWithin, requestWithin]
    split
    · exact (resolveWith_within hreq _ _ _).andThen fun _ _ => .refl _
    · split
      · exact .refl _
      · exact (resolveWith_within hreq _ _ _).andThen fun _ _ => .refl _

/-- Requests depend on the source through its answers alone. -/
theorem requestWithin_nesting (ctx : Context) (d depth : Nat) :
    requestWithin (ctx.nesting d) depth = requestWithin ctx depth := by
  induction depth with
  | zero => rfl
  | succ depth ih =>
    funext name r
    rw [requestWithin, requestWithin, ih]
    rfl

section Operations

variable {depth : Nat} (hle : ctx.source.depth ≤ depth)
include hle

theorem request_within (name : String) (r : Registry) :
    (r.request ctx name).Within (r.request (ctx.nesting depth) name) := by
  rw [request, request, requestWithin_nesting]
  exact requestWithin_within ctx hle name r

theorem resolve_within (r : Registry) (id : ClassId) (hid : id < r.entries.size) :
    (r.resolve ctx id hid).Within (r.resolve (ctx.nesting depth) id hid) := by
  rw [resolve, resolve, requestWithin_nesting]
  exact resolveWith_within (requestWithin_within ctx hle) id _ r

theorem document_within (scope : Scope) (names : List String) (r : Registry) :
    (document ctx scope names r).Within (document (ctx.nesting depth) scope names r) := by
  induction names generalizing r with
  | nil => exact .refl _
  | cons name names ih =>
    rw [document, document]
    split
    · exact (request_within hle name r).andThen fun _ _ => (ih _).andThen fun _ _ => .refl _
    · exact ih r

/-- An operation that comes to an end does so in the same way if requests may nest deeper. -/
theorem Op.perform_within (op : Op) (r : Registry) :
    (op.perform ctx r).Within (op.perform (ctx.nesting depth) r) := by
  cases op with
  | request name => exact (request_within hle name r).andThen fun _ _ => .refl _
  | resolveClass name =>
    refine ((request_within hle name r).andThen fun id t => ?_).andThen fun _ _ => .refl _
    split
    · exact (resolve_within hle t id _).andThen fun _ _ => .refl _
    · exact .refl _
  | resolve id =>
    rw [Op.perform, Op.perform]
    split
    · exact (resolve_within hle r id _).andThen fun _ _ => .refl _
    · exact .refl _
  | document names scope => exact (document_within hle scope names r).andThen fun _ _ => .refl _

end Operations

/-! ### Operations on a finite source -/

theorem Reachable.boundedAt {view : String → Except SourceError ClassView} {shared : Bool}
    {r t : Registry} (h : FiniteSource ctx view) (hreach : Reachable ctx shared r)
    (ht : Steps ctx r t) : t.shared = shared ∧ BoundedAt view t := by
  obtain ⟨names, hb, hcard⟩ := h.exists_bounded
  have hsteps : Steps ctx { shared } t := hreach.steps.trans ht
  have hmode : t.shared = shared := (hsteps.grows (sound_new _ shared)).shared
  have hs : SteadySound ctx.docs view t := ht.steadySound hb.steady (hreach.steadySound hb)
  refine ⟨hmode, hs.bounded_at (fun hoff => ?_) hb.mem_names hcard⟩
  exact hsteps.classesUnderWay_nodup (sound_new _ shared) (hmode.symm.trans hoff) .nil

/-- **Termination**: a codebase, also under an overlay whose views may describe other classes than
they are found under, is a finite source. From every registry that operations on a finite source
lead to, shared or not, every operation comes to an end, and does so in the same way however much
deeper requests may nest. It leads there by single steps, and at every moment there are no more
entries under way than the source has names: with sharing they were requested under different names,
without sharing they are of different classes. -/
theorem operations_end :
    (∀ (c : Codebase) (overlay : Overlay) (docs : DocReader),
      FiniteSource ⟨c.source overlay, docs⟩ (c.viewThrough overlay)) ∧
    ∀ (ctx : Context) (view : String → Except SourceError ClassView), FiniteSource ctx view →
      ∀ (shared : Bool) (r : Registry), Reachable ctx shared r → ∀ op : Op,
        ∃ res s, op.perform ctx r = some (res, s) ∧
          (∀ depth, ctx.source.depth ≤ depth →
            op.perform (ctx.nesting depth) r = some (res, s)) ∧
          Path ctx r (op.moments ctx r) s ∧
          ∀ t ∈ r :: op.moments ctx r, t.shared = shared ∧ BoundedAt view t := by
  refine ⟨finiteSource_of_codebase, fun ctx view h shared r hreach op => ?_⟩
  obtain ⟨names, hb, -⟩ := h.exists_bounded
  obtain ⟨⟨res, s⟩, hop⟩ :=
    Option.isSome_iff_exists.mp (op.perform_isSome hb (hreach.steadySound hb))
  have hpath := op.moments_path hreach.sound hop
  exact ⟨res, s, hop, fun depth hle => op.perform_within hle r hop, hpath,
    fun t ht => hreach.boundedAt h (hpath.steps_of_mem t ht)⟩

/-- A view that names one ancestor and has no methods. -/
def viewOf (name ancestor : String) : ClassView where
  name := name
  kind := .interface
  parent := none
  interfaces := [ancestor]
  docComment := none
  methods := []

/-- Two classes that name each other, both found under other names than their own. -/
def loop : Overlay := .ofList [("front", viewOf "Front" "back"), ("back", viewOf "Back" "front")]

/-- Without sharing, both classes of a loop are under way when it is found; a third entry is made
and not taken up. -/
theorem operations_end_loop : ∃ res s,
    (Op.request "front").perform ⟨Codebase.empty.source loop, .rejecting⟩ { shared := false } =
      some (res, s) ∧ failure? res = some (.reentrant "Front") ∧ s.size = 3 ∧
    ((Op.request "front").moments ⟨Codebase.empty.source loop, .rejecting⟩
      { shared := false }).map (·.stack.length) = [0, 1, 1, 2, 2, 1, 0] ∧
    ∀ t ∈ { shared := false } :: (Op.request "front").moments
      ⟨Codebase.empty.source loop, .rejecting⟩ { shared := false },
      t.shared = false ∧ BoundedAt (Codebase.empty.viewThrough loop) t := by
  have hrun : ((Op.request "front").perform ⟨Codebase.empty.source loop, .rejecting⟩
      { shared := false }).map (fun p => (failure? p.1, p.2.size)) =
        some (some (.reentrant "Front"), 3) := by
    decide +kernel
  have hstacks : ((Op.request "front").moments ⟨Codebase.empty.source loop, .rejecting⟩
      { shared := false }).map (·.stack.length) = [0, 1, 1, 2, 2, 1, 0] := by
    decide +kernel
  have hnew : Reachable ⟨Codebase.empty.source loop, .rejecting⟩ false { shared := false } :=
    ⟨[], [], rfl⟩
  obtain ⟨res, s, hop, -, -, hmoments⟩ := operations_end.2 _ _
    (operations_end.1 Codebase.empty loop .rejecting) false _ hnew (.request "front")
  rw [hop] at hrun
  obtain ⟨hfail, hsize⟩ := Prod.mk.inj (Option.some.inj hrun)
  exact ⟨res, s, hop, hfail, hsize, hstacks, hmoments⟩

end Registry

end ClassSurface
