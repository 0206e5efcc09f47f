import ClassSurface.Proofs.Codebase.Locality
import ClassSurface.Proofs.Registry.ReturnTypes
import ClassSurface.Proofs.Registry.WorkCounts

/-! # Proofs.Registry.Chronicle — what the log tells about a request

A request for a class takes up what is not resolved yet, in the order of a walk from the class, and
settles the methods of a class after those of its ancestors. The log shows both: `resolving` events
come in preorder, and `resolvedMethod` events wait for the ancestors.

* `Chronicle c roots r events s`: the events tell how the classes `roots` were had on the way from
  `r` to `s`.
* `Chronicle.append`, `Chronicle.complete`: the events of requests in a row, and of an entry that is
  completed after its ancestors.
* `log_in_order`: after any history, the events of a successful request are such a chronicle.
-/

namespace ClassSurface

namespace Event

/-- The class that an event is about. -/
def about? : Event → Option String
  | resolving className => some className
  | resolvedMethod className .. => some className
  | surplusParam className .. => some className
  | malformedTag className .. => some className
  | unusableDoc className .. => some className
  | started .. => none
  | finished .. => none

/-- The class that is taken up. -/
def takenUp? : Event → Option String
  | resolving className => some className
  | _ => none

/-- The class whose method is settled. -/
def settled? : Event → Option String
  | resolvedMethod className .. => some className
  | _ => none

/-- An event about a class that neither takes it up nor settles a method. -/
structure Remarks (event : Event) (className : String) : Prop where
  about : event.about? = some className
  takenUp : event.takenUp? = none
  settled : event.settled? = none

end Event

/-- The classes that events take up, in order. -/
def takenUp (events : List Event) : List String := events.filterMap Event.takenUp?

/-- The events that settle the methods of a class. -/
def settling (className : String) (events : List Event) : List Event :=
  events.filter (·.settled? = some className)

theorem takenUp_append (events later : List Event) :
    takenUp (events ++ later) = takenUp events ++ takenUp later :=
  List.filterMap_append

theorem settling_append (className : String) (events later : List Event) :
    settling className (events ++ later) = settling className events ++ settling className later :=
  List.filter_append ..

theorem Event.about?_of_settled? {event : Event} {className : String}
    (h : event.settled? = some className) : event.about? = some className := by
  cases event <;> simp_all [Event.settled?, Event.about?]

/-- Events that are not about a class settle none of its methods. -/
theorem settling_eq_nil {className : String} {events : List Event}
    (h : ∀ event ∈ events, event.about? ≠ some className) : settling className events = [] := by
  rw [settling, List.filter_eq_nil_iff]
  intro event hevent hsettled
  exact h event hevent (Event.about?_of_settled? (by simpa using hsettled))

/-! ### The events of a class -/

theorem remarks_noteEvents {className method : String} (count : Nat) (notes : List Annotation) :
    ∀ event ∈ noteEvents className method count notes, event.Remarks className := by
  fun_induction noteEvents className method count notes with
  | case1 => simp
  | case2 _ _ notes ih => exact List.forall_mem_cons.mpr ⟨⟨rfl, rfl, rfl⟩, ih⟩
  | case3 => assumption
  | case4 count error notes ih => exact List.forall_mem_cons.mpr ⟨⟨rfl, rfl, rfl⟩, ih⟩
  | case5 => assumption

/-- What is reported about a method ends with the event that settles it. -/
theorem methodEvents_eq (docs : DocReader) (className : String) (m : MethodDecl)
    (returnType : String) :
    ∃ remarks, methodEvents docs className m returnType =
        remarks ++ [.resolvedMethod className m.name returnType] ∧
      ∀ event ∈ remarks, event.Remarks className := by
  refine ⟨_, rfl, ?_⟩
  split
  · simp
  · exact List.forall_mem_singleton.mpr ⟨rfl, rfl, rfl⟩
  · exact remarks_noteEvents _ _

theorem remarks_classDocEvents (docs : DocReader) (className : String) (doc : Option String) :
    ∀ event ∈ classDocEvents docs className doc, event.Remarks className := by
  rw [classDocEvents]
  split
  · simp
  · exact List.forall_mem_singleton.mpr ⟨rfl, rfl, rfl⟩
  · intro event hevent
    obtain ⟨error, -, rfl⟩ := List.mem_map.mp hevent
    exact ⟨rfl, rfl, rfl⟩

theorem takenUp_of_remarks {className : String} {events : List Event}
    (h : ∀ event ∈ events, event.Remarks className) : takenUp events = [] :=
  List.filterMap_eq_nil_iff.mpr fun event hevent => (h event hevent).takenUp

theorem settling_of_remarks {className other : String} {events : List Event}
    (h : ∀ event ∈ events, event.Remarks className) : settling other events = [] := by
  rw [settling, List.filter_eq_nil_iff]
  intro event hevent
  simp [(h event hevent).settled]

/-- The events of methods: all are about the class, none takes it up, each method is settled. -/
theorem flatMap_methodEvents (docs : DocReader) (className : String)
    (returnType : MethodDecl → String) (ms : List MethodDecl) :
    (∀ event ∈ ms.flatMap fun m => methodEvents docs className m (returnType m),
        event.about? = some className) ∧
      takenUp (ms.flatMap fun m => methodEvents docs className m (returnType m)) = [] ∧
      settling className (ms.flatMap fun m => methodEvents docs className m (returnType m)) =
        ms.map fun m => .resolvedMethod className m.name (returnType m) := by
  induction ms with
  | nil => simp [takenUp, settling]
  | cons m ms ih =>
    obtain ⟨habout, htaken, hsettling⟩ := ih
    obtain ⟨remarks, heq, hremarks⟩ := methodEvents_eq docs className m (returnType m)
    rw [List.flatMap_cons, List.map_cons, takenUp_append, settling_append, htaken, hsettling, heq]
    refine ⟨?_, ?_, ?_⟩
    · simp only [List.forall_mem_append, List.forall_mem_singleton]
      exact ⟨⟨fun event hevent => (hremarks event hevent).about, rfl⟩, habout⟩
    · rw [takenUp_append, takenUp_of_remarks hremarks]
      rfl
    · rw [settling_append, settling_of_remarks hremarks]
      simp [settling, Event.settled?]

namespace Registry

variable {c : Codebase} {docs : DocReader} {r s t : Registry} {id : ClassId} {e : Entry}
  {name : String} {roots : List String} {events : List Event}

/-- The events of a class that is completed: all are about it, none takes it up, and its methods are
settled in the order of its view. -/
theorem surfaceEvents_spec (r : Registry) (docs : DocReader) (v : ClassView)
    (ancestors : List ClassId) :
    (∀ event ∈ r.surfaceEvents docs v ancestors, event.about? = some v.name) ∧
      takenUp (r.surfaceEvents docs v ancestors) = [] ∧
      settling v.name (r.surfaceEvents docs v ancestors) = v.methods.map fun m =>
        .resolvedMethod v.name m.name
          (mergeReturn (usableAnnotations docs m.docComment) m
            (r.inheritedReturn ancestors m.name)) := by
  have hclass := remarks_classDocEvents docs v.name v.docComment
  obtain ⟨habout, htaken, hsettling⟩ := flatMap_methodEvents docs v.name (fun m =>
    mergeReturn (usableAnnotations docs m.docComment) m (r.inheritedReturn ancestors m.name))
    v.methods
  unfold surfaceEvents
  rw [takenUp_append, settling_append, takenUp_of_remarks hclass, settling_of_remarks hclass,
    htaken, hsettling]
  exact ⟨List.forall_mem_append.mpr ⟨fun event hevent => (hclass event hevent).about, habout⟩,
    rfl, rfl⟩

/-! ### What is left to resolve -/

/-- A class of that name is resolved. -/
def hasResolved (r : Registry) (name : String) : Bool :=
  r.entries.any fun e => e.requested = name && e.isResolved

theorem hasResolved_iff : r.hasResolved name = true ↔ ∃ id, r.Provides id name := by
  unfold hasResolved Provides
  rw [Array.any_eq_true']
  constructor
  · rintro ⟨e, he, hname⟩
    obtain ⟨id, hid⟩ := Array.mem_iff_getElem?.mp he
    exact ⟨id, e, hid, by simpa using hname⟩
  · rintro ⟨id, e, he, hname, hres⟩
    exact ⟨e, Array.mem_of_getElem? he, by simp [hname, hres]⟩

/-- The declared names that are not resolved. -/
def unresolvedNames (r : Registry) (c : Codebase) : List String :=
  c.names.dedup.filter fun name => !r.hasResolved name

/-- The declared names that are neither resolved nor under way. -/
def awaiting (r : Registry) (c : Codebase) : List String :=
  (r.unresolvedNames c).filter fun name => name ∉ r.underWay

theorem nodup_awaiting (r : Registry) (c : Codebase) : (r.awaiting c).Nodup :=
  ((List.nodup_dedup _).filter _).filter _

theorem mem_awaiting : name ∈ r.awaiting c ↔
    name ∈ c.names ∧ ¬ r.hasResolved name ∧ name ∉ r.underWay := by
  simp [awaiting, unresolvedNames, and_comm]

/-! ### Chronicles -/

/-- The events settle the methods of `e`, a class called `name`: one event for each method of its
view, in order, with the return type that `e` has for it. -/
def Settles (events : List Event) (name : String) (e : Entry) : Prop :=
  List.Forall₂ (fun event m => ∃ sig, e.methods[m.name]? = some sig ∧
    event = .resolvedMethod name m.name sig.returnType) (settling name events) e.view.methods

/-- No event about an ancestor follows an event that settles a method. -/
def InOrder (c : Codebase) (earlier later : Event) : Prop :=
  ∀ n a, earlier.settled? = some n → later.about? = some a → ¬ c.Extends n a

/-- The events tell how the classes `roots` were had on the way from `r` to `s`. -/
structure Chronicle (c : Codebase) (roots : List String) (r : Registry) (events : List Event)
    (s : Registry) : Prop where
  log : s.log.toList = r.log.toList ++ events
  /-- The walk passes over what is resolved or under way. -/
  preorder : takenUp events = c.visits (r.awaiting c) roots
  resolved : ∀ n, s.hasResolved n ↔ r.hasResolved n ∨ n ∈ takenUp events
  about : ∀ event ∈ events, ∃ n ∈ takenUp events, event.about? = some n
  settled : ∀ n ∈ takenUp events, ∃ (id : ClassId) (e : Entry), s.entries[id]? = some e ∧
    e.requested = n ∧ e.isResolved = true ∧ Settles events n e
  ordered : events.Pairwise (InOrder c)

theorem Chronicle.of_visits_eq_nil (r : Registry) (h : c.visits (r.awaiting c) roots = []) :
    Chronicle c roots r [] r where
  log := by simp
  preorder := by rw [h]; rfl
  resolved := by simp [takenUp]
  about := by simp
  settled := by simp [takenUp]
  ordered := List.Pairwise.nil

/-- A resolved class is had without any event. -/
theorem Chronicle.of_resolved (h : r.hasResolved name = true) : Chronicle c [name] r [] r := by
  apply Chronicle.of_visits_eq_nil
  rw [Codebase.visits_of_not_mem, Codebase.visits_nil]
  rw [mem_awaiting, h]
  simp

/-- What is taken up was neither resolved nor under way. -/
theorem Chronicle.awaited (h : Chronicle c roots r events s) (hn : name ∈ takenUp events) :
    ¬ r.hasResolved name ∧ name ∉ r.underWay := by
  rw [h.preorder] at hn
  obtain ⟨hn, -⟩ := Codebase.of_mem_visits _ _ hn
  exact (mem_awaiting.mp hn).2

theorem Chronicle.mem_takenUp_iff (h : Chronicle c roots r events s) :
    name ∈ takenUp events ↔ s.hasResolved name ∧ ¬ r.hasResolved name := by
  constructor
  · intro hn
    exact ⟨(h.resolved name).mpr (.inr hn), (h.awaited hn).1⟩
  · rintro ⟨hs, hr⟩
    exact ((h.resolved name).mp hs).resolve_left hr

/-- Events are about what was not resolved before and is so afterwards. -/
theorem Chronicle.of_about (h : Chronicle c roots r events s) {event : Event}
    (hevent : event ∈ events) (habout : event.about? = some name) :
    s.hasResolved name ∧ ¬ r.hasResolved name := by
  obtain ⟨n, hn, habout'⟩ := h.about event hevent
  obtain rfl : name = n := Option.some.inj (habout.symm.trans habout')
  exact h.mem_takenUp_iff.mp hn

/-- Events about other classes do not matter to what is settled. -/
theorem Settles.congr {other : List Event} (h : Settles events name e)
    (heq : settling name other = settling name events) : Settles other name e := by
  unfold Settles
  rw [heq]
  exact h

/-- All that a resolved class names as an ancestor is resolved. -/
theorem SteadySound.hasResolved_of_extends (hs : SteadySound docs c.view r)
    (h : r.hasResolved name) {a : String} (ha : c.Extends name a) : r.hasResolved a :=
  hasResolved_iff.mpr (hs.provides_of_reaches (hasResolved_iff.mp h) (.single ha))

/-- Requests in a row: the later ones pass over what the earlier ones have resolved. -/
theorem Chronicle.append {later : List String} {events' : List Event}
    (h : Chronicle c roots r events t) (h' : Chronicle c later t events' s)
    (ht : SteadySound docs c.view t) (hway : t.underWay = r.underWay) (hgrows : Grows t s) :
    Chronicle c (roots ++ later) r (events ++ events') s := by
  refine ⟨?_, ?_, fun n => ?_, ?_, fun n hn => ?_, ?_⟩
  · rw [h'.log, h.log, List.append_assoc]
  · rw [takenUp_append, Codebase.visits_append, h.preorder, h'.preorder]
    congr 1
    apply Codebase.visits_congr (nodup_awaiting r c).diff (nodup_awaiting t c)
    intro z
    rw [(nodup_awaiting r c).mem_sdiff_iff, ← h.preorder, mem_awaiting, mem_awaiting, hway,
      h.resolved]
    tauto
  · rw [h'.resolved, h.resolved, takenUp_append, List.mem_append, or_assoc]
  · rw [List.forall_mem_append, takenUp_append]
    constructor
    · intro event hevent
      obtain ⟨n, hn, habout⟩ := h.about event hevent
      exact ⟨n, List.mem_append_left _ hn, habout⟩
    · intro event hevent
      obtain ⟨n, hn, habout⟩ := h'.about event hevent
      exact ⟨n, List.mem_append_right _ hn, habout⟩
  · -- a class is resolved by the earlier requests or by the later ones, and its events are theirs
    rw [takenUp_append, List.mem_append] at hn
    rcases hn with hn | hn
    · obtain ⟨id, e, he, hname, hres, hsettles⟩ := h.settled n hn
      have hnone : settling n events' = [] := settling_eq_nil fun event hevent habout =>
        (h'.of_about hevent habout).2 (h.mem_takenUp_iff.mp hn).1
      refine ⟨id, e, hgrows.getElem?_of_resolved he hres, hname, hres, hsettles.congr ?_⟩
      rw [settling_append, hnone, List.append_nil]
    · obtain ⟨id, e, he, hname, hres, hsettles⟩ := h'.settled n hn
      have hnone : settling n events = [] := settling_eq_nil fun event hevent habout =>
        (h'.mem_takenUp_iff.mp hn).2 (h.of_about hevent habout).1
      refine ⟨id, e, he, hname, hres, hsettles.congr ?_⟩
      rw [settling_append, hnone, List.nil_append]
  · rw [List.pairwise_append]
    refine ⟨h.ordered, h'.ordered, fun event hevent event' hevent' n a hn ha hext => ?_⟩
    -- the ancestors of what the earlier requests have resolved are resolved as well
    have hres := (h.of_about hevent (Event.about?_of_settled? hn)).1
    exact (h'.of_about hevent' ha).2 (ht.hasResolved_of_extends hres hext)

/-! ### An entry that is completed -/

theorem hasResolved_accept (r : Registry) (name : String) (v : ClassView) (n : String) :
    (r.accept name v).hasResolved n = r.hasResolved n := by
  simp [hasResolved, accept, register, countQuery, Entry.isResolved]

theorem hasResolved_takeUp (r : Registry) (id : ClassId) (e : Entry) (n : String) :
    (r.takeUp id e).hasResolved n = r.hasResolved n := rfl

theorem hasResolved_complete (he : r.entries[id]? = some e) (hopen : e.isResolved = false)
    (ids : List ClassId) (n : String) :
    (r.complete docs id e.view ids).leave.hasResolved n ↔ r.hasResolved n ∨ n = e.requested := by
  rw [hasResolved_iff, hasResolved_iff]
  constructor
  · rintro ⟨i, e', he', rfl, hres⟩
    rcases getElem?_complete_eq_some he he' with ⟨rfl, rfl⟩ | ⟨-, he'⟩
    · exact .inr rfl
    · exact .inl ⟨i, e', he', rfl, hres⟩
  · rintro (⟨i, hi⟩ | rfl)
    · exact ⟨i, hi.mono (grows_complete he hopen ids)⟩
    · refine ⟨id, { e with surface := some (r.surface docs id e.view ids) }, ?_, rfl, rfl⟩
      rw [getElem?_complete, if_pos rfl, he]
      rfl

/-- While an entry is under way it stays as it is. -/
theorem Grows.getElem?_of_open (h : Grows r s) (he : r.entries[id]? = some e)
    (hopen : e.isResolved = false) {e' : Entry} (he' : s.entries[id]? = some e')
    (hopen' : e'.isResolved = false) : e' = e := by
  obtain ⟨e₂, he₂, hid, hreq, hview, -⟩ := h.entries he
  obtain rfl : e' = e₂ := Option.some.inj (he'.symm.trans he₂)
  obtain ⟨i, requested, view, surface⟩ := e
  obtain ⟨i', requested', view', surface'⟩ := e'
  simp_all [Entry.isResolved]

/-- The events of a class that is completed settle its methods. -/
theorem settles_surfaceEvents {i : ClassId} {v : ClassView} (hname : v.name = name)
    (honce : v.methods.Pairwise fun a b => a.name ≠ b.name) (ids : List ClassId) :
    Settles (r.surfaceEvents docs v ids) name
      { id := i, requested := name, view := v, surface := some (r.surface docs id v ids) } := by
  subst hname
  unfold Settles
  rw [(surfaceEvents_spec r docs v ids).2.2, List.forall₂_map_left_iff, List.forall₂_same]
  intro m hm
  refine ⟨mergeMethod docs id m (r.inheritedReturn ids m.name), ?_, rfl⟩
  show (r.surface docs id v ids).methods[m.name]? = _
  rw [getElem?_methods_surface, find?_reverse_of_pairwise honce,
    find?_of_mem MethodDecl.name honce hm, Option.map_some]

section Complete

variable {ids : List ClassId} (hs : SteadySound docs c.view r) (hshared : r.shared = true)
  (he : r.entries[id]? = some e) (hopen : e.isResolved = false) (hfree : r.isUnderWay id e = false)
include hs he

include hshared hopen hfree in
/-- An entry that can be taken up has a name that awaits its turn. -/
theorem mem_awaiting_of_free : e.requested ∈ r.awaiting c := by
  rw [mem_awaiting, hasResolved_iff]
  refine ⟨(c.bounded docs).mem_names _ _ (hs.faithful he), ?_, fun hway => ?_⟩
  · rintro ⟨i, e', he', hreq, hres⟩
    obtain rfl : i = id := hs.unique hshared he' he hreq
    obtain rfl : e = e' := Option.some.inj (he.symm.trans he')
    rw [hopen] at hres
    cases hres
  · rw [isUnderWay_of_mem hs.toSound hs.faithful he hway] at hfree
    cases hfree

/-- To take up an entry is to visit its name. -/
theorem visits_takeUp (hmem : e.requested ∈ r.awaiting c) :
    c.visits (r.awaiting c) [e.requested] =
      e.requested :: c.visits ((r.takeUp id e).awaiting c) e.view.ancestors := by
  obtain ⟨d, hd, -, hanc⟩ := Codebase.view_eq_ok (hs.faithful he)
  rw [Codebase.visits_of_mem hmem, List.append_nil, Codebase.ancestorsOf_of_find? hd, ← hanc]
  congr 1
  apply Codebase.visits_congr (nodup_awaiting _ c) ((nodup_awaiting r c).erase _)
  intro z
  rw [(nodup_awaiting r c).mem_erase_iff, mem_awaiting, mem_awaiting, hasResolved_takeUp,
    underWay_takeUp he, List.mem_cons]
  tauto

omit hs in
/-- The entry itself is under way while its ancestors are requested. -/
theorem Chronicle.not_mem_takenUp (h : Chronicle c e.view.ancestors (r.takeUp id e) events t) :
    e.requested ∉ takenUp events := by
  intro hn
  apply (h.awaited hn).2
  rw [underWay_takeUp he]
  exact List.mem_cons_self

/-- What the entry and its ancestors have settled stays so, since each event is about one class. -/
theorem Chronicle.settled_complete (h : Chronicle c e.view.ancestors (r.takeUp id e) events t)
    (het : t.entries[id]? = some e) (hopen : e.isResolved = false) :
    ∀ n ∈ e.requested :: takenUp events, ∃ (i : ClassId) (e' : Entry),
      (t.complete docs id e.view ids).leave.entries[i]? = some e' ∧ e'.requested = n ∧
        e'.isResolved = true ∧ Settles (.resolving e.requested ::
          (events ++ t.surfaceEvents docs e.view ids)) n e' := by
  have hname : e.view.name = e.requested := name_eq_requested hs.faithful he
  have hnew := h.not_mem_takenUp he
  have habout := (surfaceEvents_spec t docs e.view ids).1
  -- taking up a class settles nothing
  have hsplit : ∀ n, settling n (.resolving e.requested ::
      (events ++ t.surfaceEvents docs e.view ids)) =
        settling n events ++ settling n (t.surfaceEvents docs e.view ids) :=
    fun n => settling_append n events _
  rw [List.forall_mem_cons]
  constructor
  · have honce := showsOnce_view c _ _ (hs.faithful he)
    have hnone : settling e.requested events = [] := settling_eq_nil fun event hevent habout' =>
      hnew (h.mem_takenUp_iff.mpr (h.of_about hevent habout'))
    refine ⟨id, { e with surface := some (t.surface docs id e.view ids) }, ?_, rfl, rfl, ?_⟩
    · rw [getElem?_complete, if_pos rfl, het]
      rfl
    · apply (settles_surfaceEvents hname honce ids).congr
      rw [hsplit, hnone, List.nil_append]
  · intro n hn
    obtain ⟨i, e', he', hreq, hres, hsettles⟩ := h.settled n hn
    have hnone : settling n (t.surfaceEvents docs e.view ids) = [] := by
      apply settling_eq_nil
      intro event hevent habout'
      rw [habout event hevent, hname] at habout'
      exact hnew (Option.some.inj habout' ▸ hn)
    refine ⟨i, e', (grows_complete het hopen ids).getElem?_of_resolved he' hres, hreq, hres, ?_⟩
    apply hsettles.congr
    rw [hsplit, hnone, List.append_nil]

/-- The events of the entry come after those of its ancestors: nothing that it reaches leads back to
it. -/
theorem Chronicle.ordered_complete (h : Chronicle c e.view.ancestors (r.takeUp id e) events t)
    (hacyc : ¬ Relation.TransGen c.Extends e.requested e.requested) :
    (Event.resolving e.requested :: (events ++ t.surfaceEvents docs e.view ids)).Pairwise
      (InOrder c) := by
  have hname : e.view.name = e.requested := name_eq_requested hs.faithful he
  have habout := (surfaceEvents_spec t docs e.view ids).1
  have hback : ∀ event ∈ t.surfaceEvents docs e.view ids, ∀ n a, c.Reaches e.requested n →
      event.about? = some a → ¬ c.Extends n a := by
    intro event hevent n a hreach ha hext
    rw [habout event hevent, hname] at ha
    obtain rfl : e.requested = a := Option.some.inj ha
    exact hacyc (Relation.TransGen.tail' hreach hext)
  rw [List.pairwise_cons, List.pairwise_append]
  refine ⟨fun event _ n a hn => (nomatch hn), h.ordered, ?_, ?_⟩
  · apply List.pairwise_of_forall_mem_list
    intro event hevent event' hevent' n a hn
    have habout' := Event.about?_of_settled? hn
    rw [habout event hevent, hname] at habout'
    obtain rfl : e.requested = n := Option.some.inj habout'
    exact hback event' hevent' _ a .refl
  · intro event hevent event' hevent' n a hn
    have htaken := h.mem_takenUp_iff.mpr (h.of_about hevent (Event.about?_of_settled? hn))
    rw [h.preorder] at htaken
    obtain ⟨-, root, hroot, hreach⟩ := Codebase.of_mem_visits _ _ htaken
    have hroot : c.Extends e.requested root := (extends_iff_of_faithful hs.faithful he).mpr hroot
    exact hback event' hevent' n a (hreach.head hroot)

include hshared hopen hfree in
/-- An entry is taken up, its ancestors are had, and it is completed. -/
theorem Chronicle.complete (h : Chronicle c e.view.ancestors (r.takeUp id e) events t)
    (het : t.entries[id]? = some e)
    (hs' : SteadySound docs c.view (t.complete docs id e.view ids).leave) :
    Chronicle c [e.requested] r
      (.resolving e.requested :: (events ++ t.surfaceEvents docs e.view ids))
      (t.complete docs id e.view ids).leave := by
  have hname : e.view.name = e.requested := name_eq_requested hs.faithful he
  have hmem := mem_awaiting_of_free hs hshared he hopen hfree
  obtain ⟨habout, htaken, -⟩ := surfaceEvents_spec t docs e.view ids
  have htakenUp : takenUp (.resolving e.requested :: (events ++ t.surfaceEvents docs e.view ids)) =
      e.requested :: takenUp events := by
    show e.requested :: takenUp (events ++ t.surfaceEvents docs e.view ids) = _
    rw [takenUp_append, htaken, List.append_nil]
  refine ⟨?_, ?_, fun n => ?_, ?_, ?_, ?_⟩
  · have hlog : t.log.toList = (r.log ++ [Event.resolving e.view.name]).toList ++ events := h.log
    show (t.log ++ t.surfaceEvents docs e.view ids).toList = _
    simp [hlog, hname]
  · rw [htakenUp, visits_takeUp hs he hmem, h.preorder]
  · rw [hasResolved_complete het hopen, h.resolved, htakenUp, List.mem_cons, hasResolved_takeUp]
    tauto
  · rw [htakenUp, List.forall_mem_cons, List.forall_mem_append]
    refine ⟨⟨e.requested, List.mem_cons_self, rfl⟩, fun event hevent => ?_, fun event hevent => ?_⟩
    · obtain ⟨n, hn, habout'⟩ := h.about event hevent
      exact ⟨n, List.mem_cons_of_mem _ hn, habout'⟩
    · exact ⟨e.requested, List.mem_cons_self, by rw [habout event hevent, hname]⟩
  · rw [htakenUp]
    exact h.settled_complete hs he het hopen
  · have hdone : (t.complete docs id e.view ids).leave.hasResolved e.requested :=
      (hasResolved_complete het hopen ids _).mpr (.inr rfl)
    obtain ⟨i, e', he', hreq, hres⟩ := hasResolved_iff.mp hdone
    have hresolvable := hreq ▸ hs'.resolvable hs'.faithful he' hres
    exact h.ordered_complete hs he (hresolvable.acyclic _ .refl)

end Complete

/-! ### Requests -/

/-- Every request that succeeds has its chronicle. -/
def Chronicled (c : Codebase) (docs : DocReader)
    (request : String → Registry → Outcome ClassId) : Prop :=
  ∀ ⦃name : String⦄ ⦃r : Registry⦄ ⦃id : ClassId⦄ ⦃s : Registry⦄, SteadySound docs c.view r →
    r.shared = true → request name r = some (.ok id, s) → ∃ events, Chronicle c [name] r events s

section Nested

variable {request : String → Registry → Outcome ClassId}

theorem requestAll_chronicle (hreq : Delivers (c.context docs) request)
    (hchron : Chronicled c docs request) :
    ∀ (names : List String) {r : Registry} {ids : List ClassId} {s : Registry},
      SteadySound docs c.view r → r.shared = true →
      requestAll request names r = some (.ok ids, s) → ∃ events, Chronicle c names r events s
  | [], r, ids, s, _, _, h => by
    cases h
    exact ⟨[], .of_visits_eq_nil r (Codebase.visits_nil c _)⟩
  | name :: names, r, ids, s, hs, hshared, h => by
    rcases requestAll_cons_eq_some h with ⟨error, -, heq⟩ | ⟨id, t, res, hname, hall, heq⟩
    · cases heq
    · cases res with
      | error error => cases heq
      | ok rest =>
        obtain ⟨hrun, -⟩ := hreq hs.toSound hname
        have ht : SteadySound docs c.view t := hrun.steps.steadySound (c.bounded docs).steady hs
        have hgrows := (requestAll_delivers hreq names ht.toSound hall).1.steps.grows ht.toSound
        obtain ⟨first, hfirst⟩ := hchron hs hshared hname
        obtain ⟨others, hothers⟩ := requestAll_chronicle hreq hchron names ht
          ((hrun.steps.grows hs.toSound).shared.trans hshared) hall
        exact ⟨first ++ others,
          hfirst.append hothers ht (underWay_excursion hs.toSound hrun) hgrows⟩

theorem Resolving.chronicle (hreq : Delivers (c.context docs) request)
    (hchron : Chronicled c docs request) (hs : SteadySound docs c.view r)
    (hshared : r.shared = true) (he : r.entries[id]? = some e)
    (h : Resolving docs request id e r (.ok ()) s) :
    ∃ events, Chronicle c [e.requested] r events s := by
  have hs' : SteadySound docs c.view s :=
    (h.delivers hreq hs.toSound he).1.steps.steadySound (c.bounded docs).steady hs
  cases h with
  | before hres => exact ⟨[], .of_resolved (hasResolved_iff.mpr ⟨id, e, he, rfl, hres⟩)⟩
  | completed hopen hfree ids t hall =>
    have henter : Step (c.context docs) r (r.takeUp id e) := .enter id e he hopen hfree
    have hs₁ : SteadySound docs c.view (r.takeUp id e) :=
      Steps.steadySound (c.bounded docs).steady hs (.single henter)
    obtain ⟨hrun, -⟩ := requestAll_delivers hreq _ hs₁.toSound hall
    obtain ⟨events, hevents⟩ := requestAll_chronicle hreq hchron _ hs₁ hshared hall
    -- the entry is still open when its ancestors are there
    have ht := hrun.steps.sound hs₁.toSound
    have htop : id ∈ t.stack := by
      rw [hrun.back_to_top.1]
      exact List.mem_cons_self
    obtain ⟨e', he', hopen'⟩ := ht.stack_open id htop
    have hgrows : Grows r t := (henter.grows hs.toSound).trans (hrun.steps.grows hs₁.toSound)
    obtain rfl := hgrows.getElem?_of_open he hopen he' hopen'
    exact ⟨_, hevents.complete hs hshared he hopen hfree he' hs'⟩

/-- Registering a view leaves no event. -/
theorem Chronicle.of_accept {v : ClassView} (hs : Sound docs r)
    (h : Chronicle c roots (r.accept name v) events s) : Chronicle c roots r events s := by
  have hway : (r.accept name v).underWay = r.underWay :=
    underWay_eq_of_grows hs (grows_accept r name v) rfl
  refine ⟨h.log, ?_, fun n => ?_, h.about, h.settled, h.ordered⟩
  · rw [h.preorder]
    apply Codebase.visits_congr (nodup_awaiting r c) (nodup_awaiting _ c)
    intro z
    rw [mem_awaiting, mem_awaiting, hasResolved_accept, hway]
  · rw [h.resolved, hasResolved_accept]

end Nested

/-- Requests have their chronicles, however deep they may nest. -/
theorem requestWithin_chronicled (c : Codebase) (docs : DocReader) (depth : Nat) :
    Chronicled c docs (requestWithin (c.context docs) depth) := by
  induction depth with
  | zero =>
    intro name r id s hs hshared h
    cases h
  | succ depth ih =>
    intro name r id s hs hshared h
    have hreq := requestWithin_delivers (c.context docs) depth
    generalize hres : (Except.ok id : Except ResolveError ClassId) = res at h
    cases requesting_of_requestWithin h with
    | found id e res _ hfound he hname run =>
      cases res with
      | error error => cases hres
      | ok _ => exact hname ▸ run.chronicle hreq ih hs hshared he
    | refused => cases hres
    | accepted v res _ hmiss hanswer run =>
      cases res with
      | error error => cases hres
      | ok _ =>
        have hs₁ := (accept_excursion hmiss hanswer).steps.steadySound (c.bounded docs).steady hs
        obtain ⟨events, hevents⟩ :=
          run.chronicle hreq ih hs₁ hshared (getElem?_accept_size r name v)
        exact ⟨events, hevents.of_accept hs.toSound⟩

/-- **The log is in order**: let classes be requested from a codebase, with sharing, after any
history. The events of a request that succeeds follow those from before. The classes taken up are
those that become resolved, each once, in the preorder of a walk from the class asked for, parent
first and then interfaces, which passes over what was resolved before. Each of them has one event
for each method of its view, in order and with the return type that is stored; no other class is
spoken of; and no event about an ancestor comes after a method of a class is settled. If nothing
becomes resolved, there is no event. -/
theorem log_in_order (c : Codebase) (docs : DocReader) (r : Registry)
    (hreach : Reachable (c.context docs) true r) (name : String) (id : ClassId) (s : Registry)
    (hreq : r.request (c.context docs) name = some (.ok id, s)) :
    ∃ events : List Event, s.log.toList = r.log.toList ++ events ∧
      takenUp events = c.visits (r.unresolvedNames c) [name] ∧ (takenUp events).Nodup ∧
      (∀ n, n ∈ takenUp events ↔ s.hasResolved n ∧ ¬ r.hasResolved n) ∧
      (∀ n ∈ takenUp events, ∃ i e, s.get n = .ok (i, e) ∧ s.stateOf i e = .resolved ∧
        c.view n = .ok e.view ∧ Settles events n e) ∧
      (∀ event ∈ events, ∃ n ∈ takenUp events, event.about? = some n) ∧
      events.Pairwise (InOrder c) ∧
      ((∀ n, s.hasResolved n → r.hasResolved n) → events = []) := by
  have hs : SteadySound docs c.view r := hreach.steadySound (c.bounded docs)
  have hshared : r.shared = true := (hreach.steps.grows (sound_new docs true)).shared
  have hrun := request_excursion hs.toSound hreq
  have hs' : SteadySound docs c.view s := hrun.steps.steadySound (c.bounded docs).steady hs
  have hshared' : s.shared = true := (hrun.steps.grows hs.toSound).shared.trans hshared
  obtain ⟨events, h⟩ := requestWithin_chronicled c docs _ hs hshared hreq
  -- between operations nothing is under way
  have hidle : r.awaiting c = r.unresolvedNames c := by
    rw [awaiting, underWay, hreach.stack_eq_nil]
    simp [namesOf]
  refine ⟨events, h.log, hidle ▸ h.preorder, ?_, fun n => h.mem_takenUp_iff, fun n hn => ?_,
    h.about, h.ordered, fun hnone => ?_⟩
  · rw [h.preorder]
    exact Codebase.nodup_visits (nodup_awaiting r c) _
  · obtain ⟨i, e, he, rfl, hres, hsettles⟩ := h.settled n hn
    have hidx := (hs'.idOf?_eq_some_iff hshared').mpr ⟨e, he, rfl⟩
    have hget : s.get e.requested = .ok (i, e) := by
      rw [get, find?_eq_some_iff.mpr ⟨hidx, he⟩]
    exact ⟨i, e, hget, stateOf_eq_resolved_iff.mpr hres, hs'.faithful he, hsettles⟩
  · apply List.eq_nil_iff_forall_not_mem.mpr
    intro event hevent
    obtain ⟨n, hn, -⟩ := h.about event hevent
    obtain ⟨hafter, hbefore⟩ := h.mem_takenUp_iff.mp hn
    exact hbefore (hnone n hafter)

/-- With the interface resolved before, the class is taken up first, its parent settled first. -/
theorem log_in_order_diamond : ∃ r s id events,
    Reachable (diamond.context fun _ => .ok [.result "string"]) true r ∧
      r.request (diamond.context fun _ => .ok [.result "string"]) "Leaf" = some (.ok id, s) ∧
      r.hasResolved "Named" ∧ s.log.toList = r.log.toList ++ events ∧
      events = [.resolving "Leaf", .resolving "Base", .resolvedMethod "Base" "label" "string",
        .resolvedMethod "Leaf" "label" "string"] ∧
      takenUp events = diamond.visits (r.unresolvedNames diamond) ["Leaf"] ∧
      events.Pairwise (InOrder diamond) := by
  have hplay : (play (diamond.context fun _ => .ok [.result "string"]) [.request "Named"] {}).bind
      (fun p => (p.2.request (diamond.context fun _ => .ok [.result "string"]) "Leaf").map fun q =>
        (p.2.hasResolved "Named", q.1.toOption, p.2.log.toList,
          q.2.log.toList.drop p.2.log.size)) =
      some (true, some 1, [.resolving "Named", .resolvedMethod "Named" "label" "string"],
        [.resolving "Leaf", .resolving "Base", .resolvedMethod "Base" "label" "string",
          .resolvedMethod "Leaf" "label" "string"]) := by
    decide +kernel
  obtain ⟨⟨answers, r⟩, hr, h⟩ := Option.bind_eq_some_iff.mp hplay
  obtain ⟨⟨res, s⟩, hreq, h⟩ := Option.map_eq_some_iff.mp h
  simp only [Prod.mk.injEq] at h
  obtain ⟨hnamed, hres, hbefore, hdrop⟩ := h
  cases res with
  | error error => cases hres
  | ok id =>
    have hreach : Reachable (diamond.context fun _ => .ok [.result "string"]) true r :=
      ⟨_, answers, hr⟩
    obtain ⟨events, hlog, hpre, -, -, -, -, hordered, -⟩ :=
      log_in_order diamond _ r hreach "Leaf" id s hreq
    rw [hlog, ← Array.length_toList, List.drop_left] at hdrop
    exact ⟨r, s, id, events, hreach, hreq, hnamed, hlog, hdrop, hpre, hordered⟩

end Registry

end ClassSurface
