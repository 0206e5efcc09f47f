import ClassSurface.Proofs.Registry.Mirror
import ClassSurface.Proofs.Registry.WellFormed

/-! # Proofs.Registry.Simulation — an arena does what a registry does

Whatever is asked of an arena, it gives the answers that a registry gives, and stays its mirror
image with each thing that is written.

* `Tracks`: a program on an arena does what an operation on a registry does.
* `Follows`: requests do, and what is in progress around them is left alone. So the edges that have
  been written survive the requests for the ancestors that are still to come.
* `fillIn_tracks`, `undertake_tracks`, `resolve_tracks`: a surface that is filled in bit by bit
  comes to be the one that an entry is given at once, or nothing of it is left.
* `obtain_follows`, `perform_tracks`, `play_mirrors`: so do requests, at any depth, operations and
  histories.
* `wellFormed_of_play`: what can be relied on in an arena between operations.
-/

namespace ClassSurface

open Registry (Sound Delivers)

namespace Arena

variable {ctx : Context} {docs : DocReader} {a b c : Arena} {r s : Registry} {id : ClassId}
  {e : Entry} {d : Descriptor} {ids : List ClassId}

/-! ### Programs beside operations -/

section Tracks

variable {α β γ δ : Type} {P : α → β → Arena → Registry → Prop}
  {Q : γ → δ → Arena → Registry → Prop}

/-- What comes of a program is what comes of an operation: neither has an outcome, both fail alike,
or both succeed, with results related by `P`. Whatever arena and registry they leave show the
same. -/
inductive Tracks (P : α → β → Arena → Registry → Prop) :
    Option (Except ResolveError α × Arena) → Outcome β → Prop where
  | endless : Tracks P none none
  | failed (error : ResolveError) {b : Arena} {s : Registry} (mirror : b.Mirrors s) :
      Tracks P (some (.error error, b)) (some (.error error, s))
  | done {x : α} {y : β} {b : Arena} {s : Registry} (mirror : b.Mirrors s) (post : P x y b s) :
      Tracks P (some (.ok x, b)) (some (.ok y, s))

/-- One program after another tracks one operation after another. -/
theorem Tracks.bind {work : Work α} {f : α → Work γ} {o : Outcome β}
    {g : β → Registry → Outcome δ} (h : Tracks P (work.from a) o)
    (hf : ∀ {x : α} {y : β} {b : Arena} {s : Registry}, o = some (.ok y, s) → b.Mirrors s →
      P x y b s → Tracks Q ((f x).from b) (g y s)) :
    Tracks Q (Work.from (work >>= f) a) (o.andThen g) := by
  rw [from_bind]
  generalize work.from a = w at h
  cases h with
  | endless => exact .endless
  | failed error mirror => exact .failed error mirror
  | done mirror post => exact hf rfl mirror post

/-- Something else may be made of the result of the operation. -/
theorem Tracks.map {R : α → δ → Arena → Registry → Prop} {f : β → δ}
    {w : Option (Except ResolveError α × Arena)} {o : Outcome β} (h : Tracks P w o)
    (hf : ∀ {x : α} {y : β} {b : Arena} {s : Registry}, P x y b s → R x (f y) b s) :
    Tracks R w (o.andThen fun y s => some (.ok (f y), s)) := by
  cases h with
  | endless => exact .endless
  | failed error mirror => exact .failed error mirror
  | done mirror post => exact .done mirror (hf post)

end Tracks

/-! ### What is in progress elsewhere -/

/-- Descriptors in progress are left as they are, except for the one number `id`. -/
def KeepsOthers (id : ClassId) (a b : Arena) : Prop :=
  ∀ ⦃i : ClassId⦄ ⦃d : Descriptor⦄, i ≠ id → a.descriptors[i]? = some d → d.state = .inProgress →
    b.descriptors[i]? = some d

/-- Descriptors in progress are left as they are. -/
def KeepsOpen (a b : Arena) : Prop :=
  ∀ ⦃i : ClassId⦄ ⦃d : Descriptor⦄, a.descriptors[i]? = some d → d.state = .inProgress →
    b.descriptors[i]? = some d

theorem KeepsOpen.trans (h : KeepsOpen a b) (h' : KeepsOpen b c) : KeepsOpen a c :=
  fun _ _ hd hstate => h' (h hd hstate) hstate

theorem KeepsOthers.trans (h : KeepsOthers id a b) (h' : KeepsOthers id b c) :
    KeepsOthers id a c :=
  fun _ _ hi hd hstate => h' hi (h hi hd hstate) hstate

theorem KeepsOpen.write (h : KeepsOpen a b) (f : Descriptor → Descriptor) :
    KeepsOthers id a (b.write id f) :=
  fun _ _ hi hd hstate => (getElem?_write_of_ne hi f).trans (h hd hstate)

/-- A descriptor that was pending has been taken up and put back; those in progress were left as they
are. -/
theorem KeepsOthers.keepsOpen {name : String} (h : KeepsOthers id (a.takeUp id name) b)
    (hd : a.descriptors[id]? = some d) (hstate : d.state = .pending)
    (f : Descriptor → Descriptor) : KeepsOpen a (b.pop.write id f) := by
  intro i o ho hopen
  have hi : i ≠ id := by
    rintro rfl
    rw [Option.some.inj (ho.symm.trans hd), hstate] at hopen
    cases hopen
  exact (getElem?_write_of_ne hi f).trans (h hi ((getElem?_write_of_ne hi _).trans ho) hopen)

/-- New descriptors leave the others alone. -/
theorem keepsOpen_create (a : Arena) (name : String) (view : ClassView) :
    KeepsOpen a (({ a with queries := a.queries + 1 } : Arena).create name view) := by
  intro i d hd _
  have hi : i ≠ a.descriptors.size := Nat.ne_of_lt (Array.getElem?_eq_some_iff.mp hd).1
  show (a.descriptors.push _)[i]? = some d
  rw [Array.getElem?_push, if_neg hi, hd]

/-! ### The methods of a descriptor -/

theorem dynamicMethods_eq (docs : DocReader) (v : ClassView) :
    dynamicMethods docs v =
      .ofList ((usableAnnotations docs v.docComment).filterMap Annotation.method?) := by
  have hfold : ∀ (l : List (String × String)) (t : Std.TreeMap String String),
      l.foldl (fun methods member => methods.insert member.1 member.2) t = t.insertMany l := by
    intro l
    induction l with
    | nil => exact fun t => Std.TreeMap.insertMany_nil.symm
    | cons p l ih => exact fun t => (ih _).trans Std.TreeMap.insertMany_cons.symm
  rw [dynamicMethods, hfold, Std.TreeMap.ofList_eq_insertMany_empty]

theorem append_events (log : Array Event) (x y : List Event) : log ++ x ++ y = log ++ (x ++ y) := by
  refine Array.toList_inj.mp ?_
  simp only [Array.toList_appendList, List.append_assoc]

theorem report_report (a : Arena) (x y : List Event) :
    (a.report x).report y = a.report (x ++ y) := by
  rw [report, report, report, append_events]

/-- Methods are worked out in turn, each is put into the table, and each is reported. -/
theorem from_resolveMethods (docs : DocReader) (d : Descriptor) (ms : List MethodDecl)
    (methods : Std.TreeMap String Signature) (a : Arena) :
    (resolveMethods docs d ms methods).from a =
      some (.ok (methods.insertMany (ms.map fun m =>
          (m.name, mergeMethod docs d.id m (a.inheritedReturn d m.name)))),
        a.report (ms.flatMap fun m => methodEvents docs d.name m
          (mergeReturn (usableAnnotations docs m.docComment) m (a.inheritedReturn d m.name)))) := by
  induction ms generalizing methods a with
  | nil => simp [resolveMethods, report]
  | cons m ms ih =>
    have hone : (resolveMethod docs d m).from a =
        some (.ok (mergeMethod docs d.id m (a.inheritedReturn d m.name)),
          a.report (methodEvents docs d.name m (mergeReturn (usableAnnotations docs m.docComment) m
            (a.inheritedReturn d m.name)))) := by
      rw [resolveMethod, from_get_bind, from_modify_bind, from_pure]
    rw [resolveMethods, from_bind, hone]
    show (resolveMethods docs d ms _).from _ = _
    rw [ih, List.map_cons, Std.TreeMap.insertMany_cons, report_report, List.flatMap_cons]
    rfl

theorem fillInDynamicMethods_mirrors (docs : DocReader) (h : a.Mirrors r)
    (hd : a.descriptors[id]? = some d) (hstate : d.state = .inProgress) (v : ClassView) :
    ∃ b, (fillInDynamicMethods docs id v).from a = some (.ok (), b) ∧
      b.Mirrors (r.report (classDocEvents docs v.name v.docComment)) ∧
      b.descriptors[id]? = some { d with dynamicMethods := dynamicMethods docs v } ∧
      KeepsOthers id a b := by
  refine ⟨_, by rw [fillInDynamicMethods, from_modify_bind, from_modify], ?_, ?_, ?_⟩
  · exact (h.report _).write hd hstate rfl rfl rfl
  · exact getElem?_write_self hd _
  · exact fun i o hi ho _ => (getElem?_write_of_ne hi _).trans ho

/-- With its ancestors in place, a descriptor is given the methods that its entry is to have. -/
theorem fillInMethods_mirrors (docs : DocReader) (h : a.Mirrors r)
    (hd : a.descriptors[id]? = some d) (hstate : d.state = .inProgress)
    (hids : d.parent.toList ++ d.interfaces = ids)
    (hp : List.Forall₂ r.Provides ids d.view.ancestors) :
    ∃ b, (fillInMethods docs id).from a = some (.ok (), b) ∧
      b.Mirrors (r.report (d.view.methods.flatMap fun m => methodEvents docs d.name m
        (mergeReturn (usableAnnotations docs m.docComment) m (r.inheritedReturn ids m.name)))) ∧
      b.descriptors[id]? = some { d with methods := (r.surface docs d.id d.view ids).methods } ∧
      KeepsOthers id a b := by
  have hinherit : ∀ m, a.inheritedReturn d m = r.inheritedReturn ids m :=
    h.inheritedReturn_eq hp hids
  have htable : (r.surface docs d.id d.view ids).methods = (∅ : Std.TreeMap _ _).insertMany
      (d.view.methods.map fun m =>
        (m.name, mergeMethod docs d.id m (r.inheritedReturn ids m.name))) := by
    rw [← Std.TreeMap.ofList_eq_insertMany_empty, Registry.surface, Registry.signatures,
      List.map_map]
    rfl
  refine ⟨(a.report _).write id ({ · with methods := (r.surface docs d.id d.view ids).methods }),
    ?_, (h.report _).write hd hstate rfl rfl rfl, getElem?_write_self hd _, ?_⟩
  · rw [fillInMethods, from_descriptor_bind hd, from_bind, from_resolveMethods]
    simp only [hinherit, from_modify, htable]
  · exact fun i o hi ho _ => (getElem?_write_of_ne hi _).trans ho

/-! ### Links -/

/-- At most one parent is set, since at most one is named. -/
theorem foldl_setParent {parent : Option String} (hlen : ids.length = parent.toList.length)
    (hnone : d.parent = none) :
    ids.foldl (fun d other => d.setParent other) d = { d with parent := ids.head? } := by
  match ids, parent with
  | [], _ => rw [List.foldl_nil, List.head?_nil, ← hnone]
  | [other], _ => rfl
  | _ :: _ :: _, none => cases hlen
  | _ :: _ :: _, some _ => cases hlen

theorem foldl_addInterface (ids : List ClassId) (d : Descriptor) :
    ids.foldl (fun d other => d.addInterface other) d =
      { d with interfaces := d.interfaces ++ ids } := by
  induction ids generalizing d with
  | nil => rw [List.foldl_nil, List.append_nil]
  | cons other ids ih =>
    rw [List.foldl_cons, ih, Descriptor.addInterface, List.append_assoc, List.singleton_append]

/-- Programs that obtain classes do what requests do, and leave what is in progress as it is. -/
def Follows (ctx : Context) (work : String → Work ClassId)
    (request : String → Registry → Outcome ClassId) : Prop :=
  ∀ ⦃a : Arena⦄ ⦃r : Registry⦄ (name : String), Sound ctx.docs r → a.Mirrors r →
    Tracks (fun x y b _ => x = y ∧ KeepsOpen a b) ((work name).from a) (request name r)

section Nested

variable {work : String → Work ClassId} {request : String → Registry → Outcome ClassId}
  (hwork : Follows ctx work request) (hreq : Delivers ctx request)
include hwork hreq

/-- The numbers that are requested in a row are written one after the other. -/
theorem link_tracks (put : ClassId → Descriptor → Descriptor)
    (hput : ∀ x d, (put x d).id = d.id ∧ (put x d).view = d.view ∧ (put x d).state = d.state)
    (names : List String) (hs : Sound ctx.docs r) (h : a.Mirrors r)
    (hd : a.descriptors[id]? = some d) (hstate : d.state = .inProgress) :
    Tracks (fun _ ids b _ => b.descriptors[id]? = some (ids.foldl (fun d x => put x d) d) ∧
        KeepsOthers id a b)
      ((link work id put names).from a) (Registry.requestAll request names r) := by
  induction names generalizing a r d with
  | nil => exact .done h ⟨hd, fun _ _ _ hi _ => hi⟩
  | cons name names ih =>
    rw [link, Registry.requestAll]
    refine (hwork name hs h).bind fun {x _ b s} hname hb hpost => ?_
    obtain ⟨rfl, hkeep⟩ := hpost
    -- the descriptor is in progress, so what was written of it outlasts the request
    have hd' : b.descriptors[id]? = some d := hkeep hd hstate
    obtain ⟨hid, hview, hkept⟩ := hput x d
    rw [from_modify_bind]
    refine (ih ((hreq hs hname).1.steps.sound hs) (hb.write hd' hstate hid hview hkept)
      (getElem?_write_self hd' _) (hkept.trans hstate)).map fun hpost => ?_
    exact ⟨hpost.1, KeepsOthers.trans (hkeep.write _) hpost.2⟩

/-- The parent and the interfaces are written down as the surface of the entry is to have them. -/
theorem linkAncestors_tracks (v : ClassView) (hs : Sound ctx.docs r) (h : a.Mirrors r)
    (hd : a.descriptors[id]? = some d) (hstate : d.state = .inProgress)
    (hblank : d.toSurface = .empty) :
    Tracks (fun _ ids b _ => b.descriptors[id]? = some { d with
          parent := (ids.take v.parent.toList.length).head?
          interfaces := ids.drop v.parent.toList.length } ∧ KeepsOthers id a b)
      ((linkAncestors work id v).from a) (Registry.requestAll request v.ancestors r) := by
  have hnone : d.parent = none := congrArg Surface.parent hblank
  have hnil : d.interfaces = [] := congrArg Surface.interfaces hblank
  rw [linkAncestors, ClassView.ancestors, Registry.requestAll_append]
  refine (link_tracks hwork hreq Descriptor.setParent (fun _ _ => ⟨rfl, rfl, rfl⟩) _ hs h hd
    hstate).bind fun {_ ids b s} hall hb hpost => ?_
  obtain ⟨hcell, hkeep⟩ := hpost
  obtain ⟨hrun, hp⟩ := Registry.requestAll_delivers hreq _ hs hall
  have hlen := (hp ids rfl).length_eq
  rw [foldl_setParent hlen hnone] at hcell
  refine (link_tracks hwork hreq Descriptor.addInterface (fun _ _ => ⟨rfl, rfl, rfl⟩) _
    (hrun.steps.sound hs) hb hcell hstate).map fun hpost => ⟨?_, hkeep.trans hpost.2⟩
  rw [hpost.1, foldl_addInterface, hnil, List.nil_append, ← hlen, List.take_left, List.drop_left]

/-- A surface is filled in as the one that the entry is to have, unless an ancestor cannot be
had. -/
theorem fillIn_tracks (hs : Sound ctx.docs r) (h : a.Mirrors r) (hd : a.descriptors[id]? = some d)
    (hstate : d.state = .inProgress) (hblank : d.toSurface = .empty) (hid : d.id = id) :
    Tracks (fun _ ids b s => (∃ d', b.descriptors[id]? = some d' ∧
        d'.toSurface = s.surface ctx.docs id d.view ids) ∧ KeepsOthers id a b)
      ((fillIn ctx.docs work id).from a)
      ((Registry.requestAll request d.view.ancestors r).andThen fun ids s =>
        some (.ok ids, s.report (s.surfaceEvents ctx.docs d.view ids))) := by
  rw [fillIn, from_descriptor_bind hd]
  refine (linkAncestors_tracks hwork hreq d.view hs h hd hstate hblank).bind
    fun {_ ids b s} hall hb hpost => ?_
  obtain ⟨hcell, hkeep⟩ := hpost
  have hp := (Registry.requestAll_delivers hreq _ hs hall).2 ids rfl
  have hids : (s.surface ctx.docs id d.view ids).parent.toList ++
      (s.surface ctx.docs id d.view ids).interfaces = ids :=
    Registry.surface_ancestors hp.length_eq
  obtain ⟨b₁, hfrom₁, hb₁, hcell₁, hkeep₁⟩ :=
    fillInDynamicMethods_mirrors ctx.docs hb hcell hstate d.view
  obtain ⟨b₂, hfrom₂, hb₂, hcell₂, hkeep₂⟩ :=
    fillInMethods_mirrors ctx.docs hb₁ hcell₁ hstate hids hp
  rw [from_bind, hfrom₁]
  show Tracks _ ((fillInMethods ctx.docs id).from b₁) _
  rw [hfrom₂]
  refine .done ?_ ⟨⟨_, hcell₂, ?_⟩, hkeep.trans (hkeep₁.trans hkeep₂)⟩
  · have hevents : (s.report (classDocEvents ctx.docs d.view.name d.view.docComment)).report _ =
        s.report (s.surfaceEvents ctx.docs d.view ids) :=
      congrArg (fun log => { s with log }) (append_events ..)
    exact hevents ▸ hb₂
  · show Surface.mk _ _ _ _ = Registry.surface ..
    simp only [Registry.surface, hid, dynamicMethods_eq]
    rfl

/-- A descriptor that is taken up is completed as its entry is, or given up as its entry is. -/
theorem undertake_tracks (hs : Sound ctx.docs r) (h : a.Mirrors r)
    (hd : a.descriptors[id]? = some d) (hstate : d.state = .pending)
    (he : r.entries[id]? = some e) (hfree : r.isUnderWay id e = false) :
    Tracks (fun _ _ b _ => KeepsOpen a b) ((undertake ctx.docs work id d.name).from a)
      (Registry.resolveWith ctx.docs request id e r) := by
  have hmirror := h.descriptors hd he
  obtain ⟨hopen, -⟩ := Registry.stateOf_eq_pending_iff.mp (hmirror.state.symm.trans hstate)
  have hs₁ := (Registry.Step.enter id e he hopen hfree).sound hs
  have hfill := fillIn_tracks hwork hreq hs₁ (h.takeUp hd he hstate) (getElem?_takeUp hd d.name) rfl
    (hmirror.blank hstate) (hmirror.number.trans (hs.numbered he))
  rw [undertake, from_modify_bind, from_bind, from_observing, Registry.resolveWith,
    if_neg (by simp [hopen]), if_neg (by simp [hfree]), show e.view = d.view from hmirror.view.symm]
  -- the entry gets its surface when the stack is left, the descriptor has it by then
  generalize Work.from (fillIn ctx.docs work id) _ = w at hfill ⊢
  rcases hall : Registry.requestAll request d.view.ancestors (r.takeUp id e) with
    _ | ⟨error | ids, t⟩
  · rw [hall] at hfill
    cases hfill
    exact .endless
  · rw [hall] at hfill
    obtain ⟨hrun, -⟩ := Registry.requestAll_delivers hreq _ hs₁ hall
    obtain ⟨e', he', -⟩ := (hrun.steps.grows hs₁).entries he
    cases hfill with
    | failed _ hb =>
      obtain ⟨d', hd', -⟩ := hb.exists_descriptor he'
      exact .failed error (hb.reset (hrun.steps.sound hs₁) hrun.back_to_top.1 hd')
  · rw [hall] at hfill
    obtain ⟨hrun, -⟩ := Registry.requestAll_delivers hreq _ hs₁ hall
    cases hfill with
    | done hb hpost =>
      obtain ⟨⟨d', hd', hsurface⟩, hkeep⟩ := hpost
      exact .done (hb.complete hrun.back_to_top.1 hd' hsurface) (hkeep.keepsOpen hd hstate _)

/-- A descriptor is resolved as its entry is. -/
theorem resolve_tracks (hs : Sound ctx.docs r) (h : a.Mirrors r) (he : r.entries[id]? = some e) :
    Tracks (fun _ _ b _ => KeepsOpen a b) ((resolve ctx.docs work id).from a)
      (Registry.resolveWith ctx.docs request id e r) := by
  obtain ⟨d, hd, hmirror⟩ := h.exists_descriptor he
  rw [resolve, from_descriptor_bind hd]
  cases hstate : d.state with
  | resolved =>
    have hres := Registry.stateOf_eq_resolved_iff.mp (hmirror.state.symm.trans hstate)
    rw [Registry.resolveWith_of_resolved _ _ _ hres]
    exact .done h fun _ _ hi _ => hi
  | inProgress =>
    obtain ⟨hopen, hmem⟩ := Registry.stateOf_eq_inProgress_iff.mp (hmirror.state.symm.trans hstate)
    rw [Registry.resolveWith, if_neg (by simp [hopen]),
      if_pos (by simp [Registry.isUnderWay, hmem]), hmirror.name_eq]
    exact .failed _ h
  | pending =>
    obtain ⟨hopen, hfree⟩ := Registry.stateOf_eq_pending_iff.mp (hmirror.state.symm.trans hstate)
    show Tracks _ (Work.from (get >>= _) a) _
    rw [from_get_bind, hmirror.name_eq, h.isUnderWay_eq hfree]
    by_cases hway : r.isUnderWay id e = true
    · rw [if_pos hway, from_throw, Registry.resolveWith, if_neg (by simp [hopen]), if_pos hway]
      exact .failed _ h
    · rw [if_neg hway, ← hmirror.name_eq]
      exact undertake_tracks hwork hreq hs h hd hstate he (by simpa using hway)

/-- What is found, or created, for a name is what a request gives for it. -/
theorem getOrCreate_tracks (hs : Sound ctx.docs r) (h : a.Mirrors r) (name : String) :
    Tracks (fun x y b _ => x = y ∧ KeepsOpen a b) ((getOrCreate ctx work name).from a)
      (Registry.requestBy ctx request name r) := by
  rw [getOrCreate, from_get_bind, h.reusable?_eq, Registry.requestBy]
  cases hfound : r.reusable? name with
  | some found =>
    obtain ⟨id, e⟩ := found
    obtain ⟨-, he⟩ := Registry.find?_eq_some_iff.mp (Registry.find?_of_reusable? hfound)
    exact (resolve_tracks hwork hreq hs h he).bind fun _ hb hkeep => .done hb ⟨rfl, hkeep⟩
  | none =>
    show Tracks _ (Work.from (query ctx.source name >>= _) a) _
    cases hanswer : ctx.source.answer r.queries name with
    | error error =>
      have hasked := (congrArg (ctx.source.answer · name) h.queries).trans hanswer
      rw [from_bind, from_query, hasked]
      exact .failed _ h.query
    | ok view =>
      have hasked := (congrArg (ctx.source.answer · name) h.queries).trans hanswer
      have hs₁ := (Registry.accept_excursion hfound hanswer).steps.sound hs
      have hnew := Registry.getElem?_accept_size r name view
      rw [from_bind, from_query, hasked]
      show Tracks _ (Work.from (get >>= _) _) _
      rw [from_get_bind, from_modify_bind]
      show Tracks _ (Work.from (resolve ctx.docs work a.descriptors.size >>= _) _) _
      rw [h.size]
      exact (resolve_tracks hwork hreq hs₁ (h.create hs name view) hnew).bind fun _ hb hkeep =>
        .done hb ⟨rfl, (keepsOpen_create a name view).trans hkeep⟩

end Nested

/-! ### Requests, at any depth -/

/-- To resolve what is resolved changes nothing. -/
theorem from_resolve_of_resolved {work : String → Work ClassId} (docs : DocReader)
    (hd : a.descriptors[id]? = some d) (hstate : d.state = .resolved) :
    (resolve docs work id).from a = some (.ok (), a) := by
  rw [resolve, from_descriptor_bind hd, hstate, from_pure]

/-- What is obtained is what a request gives: resolving it once more changes nothing. -/
theorem obtain_follows (ctx : Context) (depth : Nat) :
    Follows ctx (obtain ctx depth) (Registry.requestWithin ctx depth) := by
  induction depth with
  | zero => exact fun _ _ _ _ _ => .endless
  | succ depth ih =>
    intro a r name hs h
    rw [obtain, ← Outcome.andThen_done (Registry.requestWithin ctx (depth + 1) name r)]
    refine (getOrCreate_tracks ih (Registry.requestWithin_delivers ctx depth) hs h name).bind
      fun {id _ b s} hname hb hpost => ?_
    obtain ⟨rfl, hkeep⟩ := hpost
    -- what a request gives is resolved, so the second attempt ends at once
    obtain ⟨e, he, -, hres⟩ := (Registry.requestWithin_delivers ctx (depth + 1) hs hname).2 id rfl
    obtain ⟨d, hd, -, hstate, -⟩ := hb.exists_resolved he hres
    rw [from_bind, from_resolve_of_resolved ctx.docs hd hstate]
    exact .done hb ⟨rfl, hkeep⟩

theorem request_follows (ctx : Context) (depth : Nat) :
    Follows ctx (request ctx depth) (Registry.requestWithin ctx depth) := by
  cases depth with
  | zero => exact fun _ _ _ _ _ => .endless
  | succ depth =>
    exact fun a r name hs h => getOrCreate_tracks (obtain_follows ctx depth)
      (Registry.requestWithin_delivers ctx depth) hs h name

/-! ### Documents and histories -/

/-- A document grows by the texts of the classes that are obtained. -/
theorem document_tracks (scope : Scope) (names : List String) (output : String)
    (hs : Sound ctx.docs r) (h : a.Mirrors r) :
    Tracks (fun x y _ _ => x = output ++ y) ((document ctx scope output names).from a)
      (Registry.document ctx scope names r) := by
  induction names generalizing output a r with
  | nil => exact .done h String.append_empty.symm
  | cons name names ih =>
    rw [document, Registry.document]
    split
    · refine (obtain_follows ctx ctx.source.depth name hs h).bind
        fun {id _ b s} hreq hb hpost => ?_
      obtain ⟨rfl, -⟩ := hpost
      obtain ⟨e, he, -, hres⟩ := Registry.provides_of_request hs hreq
      obtain ⟨d, hd, -⟩ := hb.exists_descriptor he
      have hs₁ := (Registry.request_excursion hs hreq).steps.sound hs
      have hs₂ := (Registry.Step.render id e he hres).sound hs₁
      rw [from_descriptor_bind hd, from_modify_bind, hb.text_eq hd he hres]
      refine (ih _ hs₂ (hb.markRendered id)).map fun heq => ?_
      rw [heq]
      simp only [String.append_assoc]
    · exact ih output hs h

open Registry (Op)

/-- Every operation gives back what it gives back on a registry. -/
theorem perform_tracks (hs : Sound ctx.docs r) (h : a.Mirrors r) (op : Op) :
    Tracks (fun x y _ _ => x = y) ((perform ctx op).from a) (op.perform ctx r) := by
  cases op with
  | request name =>
    exact (request_follows ctx ctx.source.depth name hs h).bind fun _ hb hpost =>
      .done hb (congrArg _ hpost.1)
  | resolveClass name =>
    rw [Op.perform, Registry.resolveClass_eq hs]
    exact (obtain_follows ctx ctx.source.depth name hs h).bind fun _ hb hpost =>
      .done hb (congrArg _ hpost.1)
  | resolve id =>
    rw [perform, Op.perform, from_get_bind, h.size]
    by_cases hid : id < r.size
    · have hid' : id < r.entries.size := hid
      rw [if_pos hid, dif_pos hid']
      exact (resolve_tracks (obtain_follows ctx _) (Registry.requestWithin_delivers ctx _) hs h
        (Array.getElem?_eq_getElem hid)).bind fun _ hb _ => .done hb rfl
    · have hid' : ¬ id < r.entries.size := hid
      rw [if_neg hid, dif_neg hid']
      exact .done h rfl
  | document names scope =>
    exact (document_tracks scope names "" hs h).bind fun _ hb heq =>
      .done hb (congrArg _ (heq.trans String.empty_append))

/-- The same is given back, and what is left shows the same. -/
def Alike {α : Type} (p : α × Arena) (q : α × Registry) : Prop := p.1 = q.1 ∧ p.2.Mirrors q.2

theorem Tracks.alike {α : Type} {w : Option (Except ResolveError α × Arena)} {o : Outcome α}
    (h : Tracks (fun x y _ _ => x = y) w o) : Option.Rel Alike w o := by
  cases h with
  | endless => exact .none
  | failed error hb => exact .some ⟨rfl, hb⟩
  | done hb heq => exact .some ⟨congrArg _ heq, hb⟩

theorem play_alike (ops : List Op) (hs : Sound ctx.docs r) (h : a.Mirrors r) :
    Option.Rel Alike (play ctx ops a) (Registry.play ctx ops r) := by
  induction ops generalizing a r with
  | nil => exact .some ⟨rfl, h⟩
  | cons op ops ih =>
    have hop := (perform_tracks hs h op).alike
    have hsteps := op.perform_steps hs
    rw [play, Registry.play]
    generalize (perform ctx op).from a = w at hop ⊢
    generalize op.perform ctx r = o at hop hsteps ⊢
    cases hop with
    | none => exact .none
    | @some p q hop =>
      obtain ⟨answer, b⟩ := p
      obtain ⟨answer', t⟩ := q
      obtain ⟨heq, hb⟩ := hop
      obtain rfl : answer = answer' := heq
      have hrest := ih ((hsteps rfl).1.sound hs) hb
      show Option.Rel Alike ((play ctx ops b).map _) ((Registry.play ctx ops t).map _)
      generalize play ctx ops b = w at hrest ⊢
      generalize Registry.play ctx ops t = o at hrest ⊢
      cases hrest with
      | none => exact .none
      | some hrest => exact .some ⟨congrArg (answer :: ·) hrest.1, hrest.2⟩

/-- **An arena does what a registry does**: whatever is asked of a new arena, it gives the answers
that a new registry gives, and what it is left with shows what the registry is left with. -/
theorem play_mirrors (ctx : Context) (shared : Bool) (ops : List Op) :
    Option.Rel Alike (play ctx ops { shared }) (Registry.play ctx ops { shared }) :=
  play_alike ops (Registry.sound_new ctx.docs shared) (mirrors_new shared)

/-! ### Between operations -/

open Relation

/-- The descriptor number `i` refers to the descriptor number `j` as its parent or as an
interface. -/
def Refers (a : Arena) (i j : ClassId) : Prop :=
  ∃ d, a.descriptors[i]? = some d ∧ (d.parent = some j ∨ j ∈ d.interfaces)

/-- The descriptor number `id` is resolved. -/
def Resolved (a : Arena) (id : ClassId) : Prop :=
  ∃ d, a.descriptors[id]? = some d ∧ d.state = .resolved

/-- What can be relied on between operations: what has been written is complete or has been taken
back. -/
structure WellFormed (a : Arena) : Prop where
  idle : a.stack = #[]
  numbered : ∀ (id : ClassId) (d : Descriptor), a.descriptors[id]? = some d → d.id = id
  not_inProgress : ∀ (id : ClassId) (d : Descriptor), a.descriptors[id]? = some d →
    d.state ≠ .inProgress
  index : ∀ (name : String) (id : ClassId), a.byName[name]? = some id → id < a.descriptors.size
  rendered : ∀ id ∈ a.rendered, a.Resolved id
  references_lt : ∀ i j : ClassId, a.Refers i j → i < a.descriptors.size ∧ j < a.descriptors.size
  pending : ∀ (id : ClassId) (d : Descriptor), a.descriptors[id]? = some d → d.state = .pending →
    d.toSurface = .empty
  /-- A resolved descriptor has a parent exactly if its view names one, and the parent is
  resolved. -/
  parent : ∀ (id : ClassId) (d : Descriptor), a.descriptors[id]? = some d → d.state = .resolved →
    List.Forall₂ (fun other _ => a.Resolved other) d.parent.toList d.view.parent.toList
  /-- A resolved descriptor has one resolved interface for each that its view names. -/
  interfaces : ∀ (id : ClassId) (d : Descriptor), a.descriptors[id]? = some d →
    d.state = .resolved →
    List.Forall₂ (fun other _ => a.Resolved other) d.interfaces d.view.interfaces
  method_names : ∀ (id : ClassId) (d : Descriptor), a.descriptors[id]? = some d →
    d.state = .resolved → ∀ m, m ∈ d.methods ↔ m ∈ d.view.methods.map (·.name)
  methods : ∀ (id : ClassId) (d : Descriptor), a.descriptors[id]? = some d →
    ∀ (m : String) (sig : Signature), d.methods[m]? = some sig → sig.name = m ∧ sig.owner = id
  acyclic : ∀ id : ClassId, ¬ TransGen a.Refers id id

section Between

variable (h : a.Mirrors r) (hr : r.WellFormed)
include h hr

/-- Where nothing is in progress, every descriptor shows its entry in full. -/
theorem Mirrors.exists_shown (hd : a.descriptors[id]? = some d) :
    ∃ e, r.entries[id]? = some e ∧ d.Mirrors r id e ∧ d.toSurface = e.surface.getD .empty ∧
      d.parent = e.parent ∧ d.interfaces = e.interfaces ∧ d.methods = e.methods := by
  obtain ⟨e, he, hmirror⟩ := h.exists_entry hd
  have hne : d.state ≠ .inProgress := by
    rw [hmirror.state]
    exact hr.not_inProgress id e he
  have hsurf := hmirror.surface hne
  refine ⟨e, he, hmirror, hsurf, ?_, ?_, ?_⟩
  · rw [hsurf, Entry.parent]
    cases e.surface <;> rfl
  · rw [hsurf, Entry.interfaces]
    cases e.surface <;> rfl
  · rw [hsurf, Entry.methods]
    cases e.surface <;> rfl

theorem Mirrors.refers_of_refers {i j : ClassId} (hij : a.Refers i j) : r.Refers i j := by
  obtain ⟨d, hd, hj⟩ := hij
  obtain ⟨e, he, -, -, hparent, hinterfaces, -⟩ := h.exists_shown hr hd
  exact ⟨e, he, by rwa [← hparent, ← hinterfaces]⟩

omit hr in
theorem Mirrors.resolved_of_provides {n : String} (hp : r.Provides id n) : a.Resolved id := by
  obtain ⟨e, he, -, hres⟩ := hp
  obtain ⟨d, hd, -, hstate, -⟩ := h.exists_resolved he hres
  exact ⟨d, hd, hstate⟩

/-- An arena is well formed when the registry that it mirrors is. -/
theorem Mirrors.wellFormed : a.WellFormed where
  idle := by
    refine Array.toList_inj.mp ?_
    rw [h.stack, hr.idle, List.reverse_nil]
  numbered := by
    intro id d hd
    obtain ⟨e, he, hmirror, -⟩ := h.exists_shown hr hd
    rw [hmirror.number, hr.numbered id e he]
  not_inProgress := by
    intro id d hd
    obtain ⟨e, he, hmirror, -⟩ := h.exists_shown hr hd
    rw [hmirror.state]
    exact hr.not_inProgress id e he
  index := by
    intro name id hid
    rw [h.size]
    exact (hr.index name id (h.index name ▸ hid)).1
  rendered := by
    intro id hid
    obtain ⟨-, e, he, hres⟩ := hr.rendered id (h.rendered ▸ hid)
    exact h.resolved_of_provides ⟨e, he, rfl, Registry.stateOf_eq_resolved_iff.mp hres⟩
  references_lt := by
    intro i j hij
    rw [h.size]
    exact hr.references_lt i j (h.refers_of_refers hr hij)
  pending := by
    intro id d hd hstate
    obtain ⟨e, -, hmirror, -⟩ := h.exists_shown hr hd
    exact hmirror.blank hstate
  parent := by
    intro id d hd hstate
    obtain ⟨e, he, hmirror, -, hparent, -⟩ := h.exists_shown hr hd
    rw [hparent, hmirror.view]
    exact (hr.parent id e he (hmirror.state.symm.trans hstate)).imp fun _ _ hp =>
      h.resolved_of_provides hp
  interfaces := by
    intro id d hd hstate
    obtain ⟨e, he, hmirror, -, -, hinterfaces, -⟩ := h.exists_shown hr hd
    rw [hinterfaces, hmirror.view]
    exact (hr.interfaces id e he (hmirror.state.symm.trans hstate)).imp fun _ _ hp =>
      h.resolved_of_provides hp
  method_names := by
    intro id d hd hstate m
    obtain ⟨e, he, hmirror, -, -, -, hmethods⟩ := h.exists_shown hr hd
    rw [hmethods, hmirror.view]
    exact hr.method_names id e he (hmirror.state.symm.trans hstate) m
  methods := by
    intro id d hd m sig hm
    obtain ⟨e, he, -, -, -, -, hmethods⟩ := h.exists_shown hr hd
    obtain ⟨hname, howner, -⟩ := hr.methods id e he m sig (hmethods ▸ hm)
    exact ⟨hname, howner⟩
  acyclic := fun id hcycle =>
    hr.acyclic id (hcycle.lift (fun i => i) fun _ _ hij => h.refers_of_refers hr hij)

end Between

/-- Every operation leaves the arena well formed, also when it fails: whatever the source answers
and however far the surfaces on the way were filled in. -/
theorem wellFormed_of_play {shared : Bool} {ops : List Op}
    {answers : List (Except ResolveError Registry.Answer)}
    (h : play ctx ops { shared } = some (answers, a)) : a.WellFormed := by
  have halike := play_mirrors ctx shared ops
  rw [h] at halike
  generalize ho : Registry.play ctx ops { shared } = o at halike
  cases halike with
  | @some _ q hq =>
    have hreach : Registry.Reachable ctx shared q.2 := ⟨ops, q.1, ho⟩
    exact hq.2.wellFormed (hreach.sound.wellFormed hreach.stack_eq_nil)

end Arena

end ClassSurface
