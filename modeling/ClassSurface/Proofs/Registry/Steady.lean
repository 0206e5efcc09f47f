import ClassSurface.Proofs.Registry.History
import Mathlib.Data.List.Perm.Subperm

/-! # Proofs.Registry.Steady — sources whose answers stay the same

A source is steady when it gives the same answers whenever it is asked. Then every entry holds the
view that belongs to the name it was requested under (`Faithful`), and the names under way are
pairwise different (`underWay_nodup`), also where entries are not shared. So requests nest no deeper
than the source has names, and they come to an end (`requestWithin_isSome`).
-/

namespace ClassSurface.Registry

variable {ctx : Context} {docs : DocReader} {view : String → Except SourceError ClassView}
  {r s : Registry} {id : ClassId} {e : Entry} {name : String} {names : List String}

/-- The source gives the answers of `view`, whenever it is asked. -/
def Steady (ctx : Context) (view : String → Except SourceError ClassView) : Prop :=
  ∀ query name, ctx.source.answer query name = view name

/-- Every entry holds the view that belongs to the name it was requested under. -/
def Faithful (view : String → Except SourceError ClassView) (r : Registry) : Prop :=
  ∀ ⦃id : ClassId⦄ ⦃e : Entry⦄, r.entries[id]? = some e → view e.requested = .ok e.view

/-- Entries that were requested under one name hold the same view. -/
theorem Faithful.view_eq (hr : Faithful view r) (hs : Faithful view s)
    (he : r.entries[id]? = some e) {other : ClassId} {o : Entry} (ho : s.entries[other]? = some o)
    (hreq : e.requested = o.requested) : e.view = o.view := by
  have hview := hr he
  rw [hreq, hs ho] at hview
  exact (Except.ok.inj hview).symm

theorem Step.faithful (hsteady : Steady ctx view) (hf : Faithful view r) (h : Step ctx r s) :
    Faithful view s := by
  cases h with
  | refuse => exact hf
  | accept name v _ hanswer =>
    intro id e he
    rcases getElem?_accept_eq_some he with ⟨-, rfl⟩ | he
    · exact (hsteady _ _).symm.trans hanswer
    · exact hf he
  | enter => exact hf
  | abandon => exact hf
  | complete id below e ancestors _ he =>
    intro i e' he'
    rcases getElem?_complete_eq_some he he' with ⟨-, rfl⟩ | ⟨-, he'⟩
    · have hview : view e.requested = .ok e.view := hf he
      exact hview
    · exact hf he'
  | render => exact hf

/-! ### What is under way -/

/-- The names under which entries were requested. -/
def namesOf (r : Registry) (ids : List ClassId) : List String :=
  ids.filterMap fun id => r.entries[id]?.map (·.requested)

/-- The names under way, the innermost first. -/
def underWay (r : Registry) : List String := r.namesOf r.stack

theorem namesOf_cons (he : r.entries[id]? = some e) (ids : List ClassId) :
    r.namesOf (id :: ids) = e.requested :: r.namesOf ids := by
  rw [namesOf, List.filterMap_cons, he]
  rfl

theorem mem_namesOf {ids : List ClassId} :
    name ∈ r.namesOf ids ↔ ∃ id ∈ ids, ∃ e, r.entries[id]? = some e ∧ e.requested = name := by
  simp [namesOf]

theorem namesOf_eq_of_grows (hg : Grows r s) {ids : List ClassId}
    (hids : ∀ id ∈ ids, ∃ e, r.entries[id]? = some e) : s.namesOf ids = r.namesOf ids := by
  induction ids with
  | nil => rfl
  | cons id ids ih =>
    obtain ⟨e, he⟩ := hids id List.mem_cons_self
    obtain ⟨e', he', -, hreq, -⟩ := hg.entries he
    rw [namesOf_cons he, namesOf_cons he', hreq, ih fun i hi => hids i (List.mem_cons_of_mem _ hi)]

theorem length_namesOf {ids : List ClassId} (hids : ∀ id ∈ ids, ∃ e, r.entries[id]? = some e) :
    (r.namesOf ids).length = ids.length := by
  induction ids with
  | nil => rfl
  | cons id ids ih =>
    obtain ⟨e, he⟩ := hids id List.mem_cons_self
    rw [namesOf_cons he, List.length_cons, List.length_cons,
      ih fun i hi => hids i (List.mem_cons_of_mem _ hi)]

theorem Sound.entry_of_mem_stack (hs : Sound docs r) :
    ∀ id ∈ r.stack, ∃ e, r.entries[id]? = some e := by
  intro id hid
  obtain ⟨e, he, -⟩ := hs.stack_open id hid
  exact ⟨e, he⟩

/-- A run that leaves the stack as it was leaves the names under way as they were. -/
theorem underWay_eq_of_grows (hs : Sound docs r) (hg : Grows r s) (hstack : s.stack = r.stack) :
    s.underWay = r.underWay := by
  rw [underWay, hstack]
  exact namesOf_eq_of_grows hg hs.entry_of_mem_stack

/-- A name under way is found to be under way, in both ways of sharing entries. -/
theorem isUnderWay_of_mem (hs : Sound docs r) (hf : Faithful view r)
    (he : r.entries[id]? = some e) (hmem : e.requested ∈ r.underWay) :
    r.isUnderWay id e = true := by
  obtain ⟨other, hother, o, ho, hreq⟩ := mem_namesOf.mp hmem
  cases hshared : r.shared with
  | true =>
    obtain rfl : other = id := hs.unique hshared ho he hreq
    simp [isUnderWay, hother]
  | false =>
    have hview : o.view = e.view := hf.view_eq hf ho he hreq
    have hany : (r.stack.any fun other => r.entries[other]?.any (·.name = e.name)) = true := by
      rw [List.any_eq_true]
      exact ⟨other, hother, by simp [ho, Entry.name, hview]⟩
    simp [isUnderWay, hshared, hany]

theorem Step.underWay_nodup (hs : Sound ctx.docs r) (hf : Faithful view r)
    (hnodup : r.underWay.Nodup) (h : Step ctx r s) : s.underWay.Nodup := by
  have hg := h.grows hs
  have htail : (s.namesOf r.stack.tail).Nodup := by
    rw [namesOf_eq_of_grows hg fun id hid => hs.entry_of_mem_stack id (List.mem_of_mem_tail hid)]
    exact hnodup.sublist ((List.tail_sublist _).filterMap _)
  cases h with
  | refuse => exact hnodup
  | accept => rwa [underWay_eq_of_grows hs hg rfl]
  | enter id e he _ hfree =>
    have hfresh : e.requested ∉ r.underWay := fun hmem => by
      rw [isUnderWay_of_mem hs hf he hmem] at hfree
      cases hfree
    show (r.namesOf (id :: r.stack)).Nodup
    rw [namesOf_cons he]
    exact List.nodup_cons.mpr ⟨hfresh, hnodup⟩
  | abandon => exact htail
  | complete => exact htail
  | render => exact hnodup

/-- What holds of a registry at every moment if its source is steady. -/
structure SteadySound (docs : DocReader) (view : String → Except SourceError ClassView)
    (r : Registry) : Prop extends Sound docs r where
  faithful : Faithful view r
  underWay_nodup : r.underWay.Nodup

theorem Steps.steadySound (hsteady : Steady ctx view) (hs : SteadySound ctx.docs view r)
    (h : Steps ctx r s) : SteadySound ctx.docs view s := by
  induction h with
  | refl => exact hs
  | tail _ hstep ih =>
    exact ⟨hstep.sound ih.toSound, hstep.faithful hsteady ih.faithful,
      hstep.underWay_nodup ih.toSound ih.faithful ih.underWay_nodup⟩

theorem steadySound_of_empty (he : r.entries = #[]) (hs : r.stack = []) (hr : r.rendered = #[]) :
    SteadySound docs view r :=
  ⟨sound_of_empty he hs hr, by simp [Faithful, he], by simp [underWay, namesOf, hs]⟩

/-- No more requests are under way than the source has names. -/
theorem SteadySound.length_stack_le (hs : SteadySound docs view r)
    (hnames : ∀ n v, view n = .ok v → n ∈ names) : r.stack.length ≤ names.length := by
  rw [← length_namesOf hs.entry_of_mem_stack]
  refine (List.subperm_of_subset hs.underWay_nodup fun n hn => ?_).length_le
  obtain ⟨id, -, e, he, rfl⟩ := mem_namesOf.mp hn
  exact hnames _ _ (hs.faithful he)

/-! ### Requests come to an end -/

/-- Requests from registries with `height` entries under way come to an end. -/
def EndsAt (docs : DocReader) (view : String → Except SourceError ClassView)
    (request : String → Registry → Outcome ClassId) (height : Nat) : Prop :=
  ∀ (name : String) (r : Registry), SteadySound docs view r → r.stack.length = height →
    (request name r).isSome

section Ends

variable {request : String → Registry → Outcome ClassId} {height : Nat}

theorem requestAll_isSome (hsteady : Steady ctx view) (hreq : Delivers ctx request)
    (hends : EndsAt ctx.docs view request height) :
    ∀ (names : List String) (r : Registry), SteadySound ctx.docs view r →
      r.stack.length = height → (requestAll request names r).isSome
  | [], r, _, _ => rfl
  | name :: names, r, hs, hheight => by
    refine Outcome.isSome_andThen (hends name r hs hheight) fun id t ht => ?_
    obtain ⟨hrun, -⟩ := hreq hs.toSound ht
    refine Outcome.isSome_andThen ?_ fun ids u _ => rfl
    exact requestAll_isSome hsteady hreq hends names t (hrun.steps.steadySound hsteady hs)
      (hrun.stack ▸ hheight)

theorem resolveWith_isSome (hsteady : Steady ctx view) (hreq : Delivers ctx request)
    (hends : EndsAt ctx.docs view request (height + 1)) (hs : SteadySound ctx.docs view r)
    (hheight : r.stack.length = height) (he : r.entries[id]? = some e) :
    (resolveWith ctx.docs request id e r).isSome := by
  rw [resolveWith]
  split
  · rfl
  · rename_i hopen
    split
    · rfl
    · rename_i hfree
      have henter : Step ctx r (r.takeUp id e) :=
        .enter id e he (by simpa using hopen) (by simpa using hfree)
      have hall := requestAll_isSome hsteady hreq hends e.view.ancestors _
        (Steps.steadySound hsteady hs (.single henter))
        (show (id :: r.stack).length = height + 1 by rw [List.length_cons, hheight])
      obtain ⟨⟨error | ids, t⟩, ht⟩ := Option.isSome_iff_exists.mp hall
      · rw [ht]
        rfl
      · rw [ht]
        rfl

end Ends

/-- Requests come to an end if they may nest as deep as the source has names, and once more. -/
theorem requestWithin_isSome (hsteady : Steady ctx view)
    (hnames : ∀ n v, view n = .ok v → n ∈ names) :
    ∀ (depth : Nat) (name : String) (r : Registry), SteadySound ctx.docs view r →
      names.length < depth + r.stack.length → (requestWithin ctx depth name r).isSome
  | 0, name, r, hs, hdepth => by
    have := hs.length_stack_le hnames
    omega
  | depth + 1, name, r, hs, hdepth => by
    have hends : EndsAt ctx.docs view (requestWithin ctx depth) (r.stack.length + 1) :=
      fun name t ht hheight => requestWithin_isSome hsteady hnames depth name t ht (by omega)
    have hreq := requestWithin_delivers ctx depth
    rw [requestWithin]
    split
    · rename_i id e hfound
      obtain ⟨-, he⟩ := find?_eq_some_iff.mp (find?_of_reusable? hfound)
      exact Outcome.isSome_andThen (resolveWith_isSome hsteady hreq hends hs rfl he)
        fun _ _ _ => rfl
    · rename_i hmiss
      split
      · rfl
      · rename_i v hanswer
        have haccept : Step ctx r (r.accept name v) := .accept name v hmiss hanswer
        refine Outcome.isSome_andThen (resolveWith_isSome hsteady hreq hends
          (Steps.steadySound hsteady hs (.single haccept)) rfl (getElem?_accept_size r name v))
          fun _ _ _ => rfl

/-- The source is steady, has no other names than `names`, and lets requests nest deep enough. -/
structure Bounded (ctx : Context) (view : String → Except SourceError ClassView)
    (names : List String) : Prop where
  steady : Steady ctx view
  mem_names : ∀ n v, view n = .ok v → n ∈ names
  depth : names.length < ctx.source.depth

section Operations

variable (hb : Bounded ctx view names)
include hb

theorem request_isSome (hs : SteadySound ctx.docs view r) (name : String) :
    (r.request ctx name).isSome :=
  requestWithin_isSome hb.steady hb.mem_names _ name r hs (Nat.lt_add_right _ hb.depth)

theorem resolve_isSome (hs : SteadySound ctx.docs view r) (hid : id < r.entries.size) :
    (r.resolve ctx id hid).isSome := by
  have hends : EndsAt ctx.docs view (requestWithin ctx ctx.source.depth) (r.stack.length + 1) :=
    fun name t ht _ => request_isSome hb ht name
  exact resolveWith_isSome hb.steady (requestWithin_delivers ctx _) hends hs rfl
    (Array.getElem?_eq_getElem hid)

theorem resolveClass_isSome (hs : SteadySound ctx.docs view r) (name : String) :
    (r.resolveClass ctx name).isSome := by
  refine Outcome.isSome_andThen (request_isSome hb hs name) fun id t ht => ?_
  have hs' := (request_excursion hs.toSound ht).steps.steadySound hb.steady hs
  split
  · exact Outcome.isSome_andThen (resolve_isSome hb hs' _) fun _ _ _ => rfl
  · rfl

theorem document_isSome (scope : Scope) :
    ∀ (classes : List String) {r : Registry}, SteadySound ctx.docs view r →
      (document ctx scope classes r).isSome
  | [], r, _ => rfl
  | name :: classes, r, hs => by
    rw [document]
    split
    · refine Outcome.isSome_andThen (request_isSome hb hs name) fun id t ht => ?_
      have hs' := (request_excursion hs.toSound ht).steps.steadySound hb.steady hs
      obtain ⟨e, he, -, hres⟩ := provides_of_request hs.toSound ht
      have hrender : Steps ctx t (t.markRendered id) := .single (.render id e he hres)
      refine Outcome.isSome_andThen ?_ fun _ _ _ => rfl
      exact document_isSome scope classes (hrender.steadySound hb.steady hs')
    · exact document_isSome scope classes hs

theorem Op.perform_isSome (hs : SteadySound ctx.docs view r) (op : Op) :
    (op.perform ctx r).isSome := by
  cases op with
  | request name => exact Outcome.isSome_andThen (request_isSome hb hs name) fun _ _ _ => rfl
  | resolveClass name =>
    exact Outcome.isSome_andThen (resolveClass_isSome hb hs name) fun _ _ _ => rfl
  | resolve id =>
    rw [Op.perform]
    split
    · exact Outcome.isSome_andThen (resolve_isSome hb hs _) fun _ _ _ => rfl
    · rfl
  | document classes scope =>
    exact Outcome.isSome_andThen (document_isSome hb scope classes hs) fun _ _ _ => rfl

/-- Any number of operations come to an end. -/
theorem exists_play_eq_some (ops : List Op) (hs : SteadySound ctx.docs view r) :
    ∃ answers s, play ctx ops r = some (answers, s) := by
  induction ops generalizing r with
  | nil => exact ⟨[], r, rfl⟩
  | cons op ops ih =>
    obtain ⟨⟨answer, t⟩, hop⟩ := Option.isSome_iff_exists.mp (op.perform_isSome hb hs)
    have hs' := (op.perform_steps hs.toSound hop).1.steadySound hb.steady hs
    obtain ⟨answers, s, hplay⟩ := ih hs'
    exact ⟨answer :: answers, s, by rw [play, hop]; simp [hplay]⟩

theorem Reachable.steadySound {shared : Bool} (h : Reachable ctx shared r) :
    SteadySound ctx.docs view r :=
  h.steps.steadySound hb.steady (steadySound_of_empty rfl rfl rfl)

end Operations

end ClassSurface.Registry
