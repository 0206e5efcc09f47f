import ClassSurface.Proofs.Registry.Queries

/-! # Proofs.Registry.Lockstep — two registries that take the same course

Two registries with different sources and readers take the same course if their entries are related
in a way that fixes all that decides about the course: the names under which entries were requested,
the names of their classes, the ancestors that they name, and whether they are resolved.

* `Lockstep`: what a relation between entries must guarantee, and what must keep it.
* `Alike`: the registries have related entries under the same numbers, and agree in all else but the
  log.
* `requestWithin_paired`, `perform_paired`, `play_paired`: operations on registries that are alike
  fail alike or succeed alike, and lead to registries that are alike.
-/

namespace ClassSurface.Registry

variable {ctx ctx' : Context} {R : Entry → Entry → Prop} {T : String → String → Prop}
  {r r' : Registry} {id : ClassId} {e e' : Entry} {name : String}

/-- The registries have related entries under the same numbers, and agree in all else but the
log. -/
structure Alike (R : Entry → Entry → Prop) (r r' : Registry) : Prop where
  shared : r'.shared = r.shared
  size : r'.size = r.size
  entries : ∀ {id : ClassId} {e : Entry}, r.entries[id]? = some e →
    ∃ e', r'.entries[id]? = some e' ∧ R e e'
  stack : r'.stack = r.stack
  rendered : r'.rendered = r.rendered
  queries : r'.queries = r.queries

/-- Two answers of sources: the same error, or views that make related entries under any number. -/
inductive AnswersAlike (R : Entry → Entry → Prop) (name : String) :
    Except SourceError ClassView → Except SourceError ClassView → Prop where
  | refused (error : SourceError) : AnswersAlike R name (.error error) (.error error)
  | given {view view' : ClassView}
      (related : ∀ id, R { id, requested := name, view } { id, requested := name, view := view' }) :
      AnswersAlike R name (.ok view) (.ok view')

/-- `R` relates entries of two registries that take the same course, and `T` their texts. -/
structure Lockstep (ctx ctx' : Context) (R : Entry → Entry → Prop) (T : String → String → Prop) :
    Prop where
  depth : ctx'.source.depth = ctx.source.depth
  answer : ∀ (query : Nat) (name : String),
    AnswersAlike R name (ctx.source.answer query name) (ctx'.source.answer query name)
  requested : ∀ {e e' : Entry}, R e e' → e'.requested = e.requested
  name : ∀ {e e' : Entry}, R e e' → e'.name = e.name
  ancestors : ∀ {e e' : Entry}, R e e' → e'.view.ancestors = e.view.ancestors
  isResolved : ∀ {e e' : Entry}, R e e' → e'.isResolved = e.isResolved
  /-- Related entries stay related when they are given the surfaces of related entries. -/
  complete : ∀ {r r' : Registry} {o o' e e' : Entry} (id : ClassId) (ids : List ClassId),
    Alike R r r' → R o o' → R e e' →
      R { o with surface := some (r.surface ctx.docs id e.view ids) }
        { o' with surface := some (r'.surface ctx'.docs id e'.view ids) }
  text_nil : T "" ""
  text : ∀ {e e' : Entry}, R e e' → T e.text e'.text
  text_append : ∀ {a a' b b' : String}, T a a' → T b b' → T (a ++ "\n" ++ b) (a' ++ "\n" ++ b')

/-! ### What registries that are alike have in common -/

/-- Under one number there is no entry, or there are related ones. -/
theorem Alike.entries_cases (hr : Alike R r r') (id : ClassId) :
    (r.entries[id]? = none ∧ r'.entries[id]? = none) ∨
      ∃ e e', r.entries[id]? = some e ∧ r'.entries[id]? = some e' ∧ R e e' := by
  cases he : r.entries[id]? with
  | none =>
    have hsize : r'.entries.size = r.entries.size := hr.size
    rw [Array.getElem?_eq_none_iff] at he
    exact .inl ⟨rfl, Array.getElem?_eq_none_iff.mpr (by omega)⟩
  | some e =>
    obtain ⟨e', he', hR⟩ := hr.entries he
    exact .inr ⟨e, e', rfl, he', hR⟩

section Alike

variable (h : Lockstep ctx ctx' R T) (hr : Alike R r r')
include h hr

theorem Alike.names_eq : r'.names = r.names := by
  refine List.ext_getElem? fun i => ?_
  rw [getElem?_names, getElem?_names]
  rcases hr.entries_cases i with ⟨he, he'⟩ | ⟨e, e', he, he', hR⟩
  · rw [he, he']
  · rw [he, he', Option.map_some, Option.map_some, h.requested hR]

theorem Alike.idOf?_eq (name : String) : r'.idOf? name = r.idOf? name := by
  rw [idOf?_eq_findIdx?, idOf?_eq_findIdx?, hr.names_eq h]

/-- Both have nothing to reuse, or related entries of one number. -/
theorem Alike.reusable?_cases (name : String) :
    (r.reusable? name = none ∧ r'.reusable? name = none) ∨
      ∃ id e e', r.reusable? name = some (id, e) ∧ r'.reusable? name = some (id, e') ∧ R e e' := by
  rw [reusable?, reusable?, hr.shared]
  split
  · cases hid : r.idOf? name with
    | none =>
      rw [find?_eq_none_iff.mpr hid, find?_eq_none_iff.mpr ((hr.idOf?_eq h name).trans hid)]
      exact .inl ⟨rfl, rfl⟩
    | some id =>
      obtain ⟨⟨e, he, -⟩, -⟩ := idOf?_eq_some_iff.mp hid
      obtain ⟨e', he', hR⟩ := hr.entries he
      rw [find?_eq_some_iff.mpr ⟨hid, he⟩,
        find?_eq_some_iff.mpr ⟨(hr.idOf?_eq h name).trans hid, he'⟩]
      exact .inr ⟨id, e, e', rfl, rfl, hR⟩
  · exact .inl ⟨rfl, rfl⟩

theorem Alike.isUnderWay_eq (id : ClassId) (he : R e e') :
    r'.isUnderWay id e' = r.isUnderWay id e := by
  have hnames : (fun other : ClassId => r'.entries[other]?.any (·.name = e'.name)) =
      fun other => r.entries[other]?.any (·.name = e.name) := by
    funext other
    rcases hr.entries_cases other with ⟨ho, ho'⟩ | ⟨o, o', ho, ho', hR⟩
    · rw [ho, ho']
      rfl
    · rw [ho, ho', Option.any_some, Option.any_some, h.name hR, h.name he]
  rw [isUnderWay, isUnderWay, hr.stack, hr.shared, hnames]

omit h in
theorem Alike.newEntry {view view' : ClassView}
    (hR : ∀ id, R { id, requested := name, view } { id, requested := name, view := view' }) :
    R (r.newEntry name view) (r'.newEntry name view') := by
  rw [Registry.newEntry, Registry.newEntry, hr.size]
  exact hR r.size

omit h in
theorem Alike.accept {view view' : ClassView}
    (hR : R (r.newEntry name view) (r'.newEntry name view')) :
    Alike R (r.accept name view) (r'.accept name view') where
  shared := hr.shared
  size := by
    show (r'.entries.push _).size = (r.entries.push _).size
    rw [Array.size_push, Array.size_push]
    exact congrArg (· + 1) hr.size
  entries := by
    intro id e he
    rw [getElem?_accept] at he ⊢
    rw [hr.size]
    by_cases hid : id = r.size
    · rw [if_pos hid] at he ⊢
      cases he
      exact ⟨_, rfl, hR⟩
    · rw [if_neg hid] at he ⊢
      exact hr.entries he
  stack := hr.stack
  rendered := hr.rendered
  queries := congrArg (· + 1) hr.queries

theorem Alike.complete (he : R e e') (id : ClassId) (ids : List ClassId) :
    Alike R (r.complete ctx.docs id e.view ids).leave
      (r'.complete ctx'.docs id e'.view ids).leave where
  shared := hr.shared
  size := by
    show (r'.entries.modify _ _).size = (r.entries.modify _ _).size
    rw [Array.size_modify, Array.size_modify]
    exact hr.size
  entries := by
    intro i o ho
    rw [getElem?_complete] at ho ⊢
    by_cases hi : id = i
    · rw [if_pos hi] at ho ⊢
      obtain ⟨o₀, ho₀, rfl⟩ := Option.map_eq_some_iff.mp ho
      obtain ⟨o₀', ho₀', hR⟩ := hr.entries ho₀
      exact ⟨_, by rw [ho₀', Option.map_some], h.complete id ids hr hR he⟩
    · rw [if_neg hi] at ho ⊢
      exact hr.entries ho
  stack := congrArg List.tail hr.stack
  rendered := hr.rendered
  queries := hr.queries

end Alike

/-! ### Operations on registries that are alike -/

/-- Two results: the same error, or values that `P` relates. -/
inductive ResultsAlike {α : Type} (P : α → α → Prop) :
    Except ResolveError α → Except ResolveError α → Prop where
  | error (error : ResolveError) : ResultsAlike P (.error error) (.error error)
  | ok {a a' : α} (related : P a a') : ResultsAlike P (.ok a) (.ok a')

/-- Two outcomes: both operations do not come to an end, or both do, with results and registries
that are alike. -/
inductive Paired {α : Type} (R : Entry → Entry → Prop) (P : α → α → Prop) :
    Outcome α → Outcome α → Prop where
  | endless : Paired R P none none
  | ended {res res' : Except ResolveError α} {r r' : Registry} (results : ResultsAlike P res res')
      (registries : Alike R r r') : Paired R P (some (res, r)) (some (res', r'))

theorem Paired.failed {α : Type} {P : α → α → Prop} (error : ResolveError) (hr : Alike R r r') :
    Paired R P (some (.error error, r)) (some (.error error, r')) :=
  .ended (.error error) hr

theorem Paired.done {α : Type} {P : α → α → Prop} {a a' : α} (hP : P a a') (hr : Alike R r r') :
    Paired R P (some (.ok a, r)) (some (.ok a', r')) :=
  .ended (.ok hP) hr

/-- Outcomes that are paired stay so if the same is done with their results. -/
theorem Paired.andThen {α β : Type} {P : α → α → Prop} {Q : β → β → Prop} {o o' : Outcome α}
    {f f' : α → Registry → Outcome β} (ho : Paired R P o o')
    (hf : ∀ a a' r r', P a a' → Alike R r r' → Paired R Q (f a r) (f' a' r')) :
    Paired R Q (o.andThen f) (o'.andThen f') := by
  cases ho with
  | endless => exact .endless
  | ended hres hr =>
    cases hres with
    | error error => exact .failed error hr
    | ok hP => exact hf _ _ _ _ hP hr

/-- The ways of requesting classes are paired. -/
def PairsRequests (R : Entry → Entry → Prop)
    (request request' : String → Registry → Outcome ClassId) : Prop :=
  ∀ ⦃name : String⦄ ⦃r r' : Registry⦄, Alike R r r' →
    Paired R Eq (request name r) (request' name r')

section Nested

variable {request request' : String → Registry → Outcome ClassId}

theorem requestAll_paired (hreq : PairsRequests R request request') :
    ∀ (names : List String) {r r' : Registry}, Alike R r r' →
      Paired R Eq (requestAll request names r) (requestAll request' names r')
  | [], r, r', hr => .done rfl hr
  | name :: names, r, r', hr => by
    rw [requestAll, requestAll]
    refine (hreq hr).andThen fun id id' t t' hid ht => ?_
    refine (requestAll_paired hreq names ht).andThen fun ids ids' u u' hids hu => ?_
    exact .done (by rw [hid, hids]) hu

/-- Related entries under one number are resolved alike. -/
theorem resolveWith_paired (h : Lockstep ctx ctx' R T) (hreq : PairsRequests R request request')
    (hr : Alike R r r') (he : R e e') (id : ClassId) :
    Paired R Eq (resolveWith ctx.docs request id e r)
      (resolveWith ctx'.docs request' id e' r') := by
  rw [resolveWith, resolveWith, h.isResolved he, hr.isUnderWay_eq h id he, h.name he,
    h.ancestors he]
  split
  · exact .done rfl hr
  · split
    · exact .failed _ hr
    · have htake : Alike R (r.takeUp id e) (r'.takeUp id e') :=
        ⟨hr.shared, hr.size, hr.entries, congrArg (id :: ·) hr.stack, hr.rendered, hr.queries⟩
      have hall := requestAll_paired hreq e.view.ancestors htake
      revert hall
      generalize requestAll request e.view.ancestors (r.takeUp id e) = o
      generalize requestAll request' e.view.ancestors (r'.takeUp id e') = o'
      intro hall
      cases hall with
      | endless => exact .endless
      | ended hres ht =>
        cases hres with
        | error error =>
          exact .failed error
            ⟨ht.shared, ht.size, ht.entries, congrArg List.tail ht.stack, ht.rendered, ht.queries⟩
        | ok hids =>
          subst hids
          exact .done rfl (ht.complete h he id _)

end Nested

section Operations

variable (h : Lockstep ctx ctx' R T)
include h

/-- Requests on registries that are alike are paired, however deep they may nest. -/
theorem requestWithin_paired (depth : Nat) :
    PairsRequests R (requestWithin ctx depth) (requestWithin ctx' depth) := by
  induction depth with
  | zero =>
    intro name r r' hr
    exact .endless
  | succ depth ih =>
    intro name r r' hr
    rcases hr.reusable?_cases h name with ⟨hmiss, hmiss'⟩ | ⟨id, e, e', hfound, hfound', he⟩
    · have hanswer := h.answer r.queries name
      rw [requestWithin, requestWithin, hmiss, hmiss', hr.queries]
      revert hanswer
      generalize ctx.source.answer r.queries name = answer
      generalize ctx'.source.answer r.queries name = answer'
      intro hanswer
      cases hanswer with
      | refused error =>
        exact .failed _ ⟨hr.shared, hr.size, hr.entries, hr.stack, hr.rendered,
          congrArg (· + 1) hr.queries⟩
      | given hR =>
        show Paired R Eq (Outcome.andThen (resolveWith _ _ r.size _ _) _)
          (Outcome.andThen (resolveWith _ _ r'.size _ _) _)
        rw [hr.size]
        have hnew := hr.newEntry hR
        refine (resolveWith_paired h ih (hr.accept hnew) hnew r.size).andThen ?_
        exact fun _ _ t t' _ ht => .done rfl ht
    · rw [requestWithin, requestWithin, hfound, hfound']
      exact (resolveWith_paired h ih hr he id).andThen fun _ _ t t' _ ht => .done rfl ht

theorem request_paired (hr : Alike R r r') (name : String) :
    Paired R Eq (r.request ctx name) (r'.request ctx' name) := by
  rw [request, request, h.depth]
  exact requestWithin_paired h _ hr

theorem resolve_paired (hr : Alike R r r') (hid : id < r.entries.size)
    (hid' : id < r'.entries.size) :
    Paired R Eq (r.resolve ctx id hid) (r'.resolve ctx' id hid') := by
  obtain ⟨e', he', hR⟩ := hr.entries (Array.getElem?_eq_getElem hid)
  rw [Array.getElem?_eq_getElem hid'] at he'
  cases he'
  rw [resolve, resolve, h.depth]
  exact resolveWith_paired h (requestWithin_paired h _) hr hR id

theorem resolveClass_paired (hr : Alike R r r') (name : String) :
    Paired R Eq (r.resolveClass ctx name) (r'.resolveClass ctx' name) := by
  refine (request_paired h hr name).andThen fun id id' t t' hid ht => ?_
  subst hid
  have hsize : t'.entries.size = t.entries.size := ht.size
  by_cases hlt : id < t.entries.size
  · rw [dif_pos hlt, dif_pos (by rw [hsize]; exact hlt)]
    exact (resolve_paired h ht _ _).andThen fun _ _ u u' _ hu => .done rfl hu
  · rw [dif_neg hlt, dif_neg (by rw [hsize]; exact hlt)]
    exact .done rfl ht

theorem Alike.textOf (hr : Alike R r r') (id : ClassId) : T (r.textOf id) (r'.textOf id) := by
  rw [Registry.textOf, Registry.textOf]
  rcases hr.entries_cases id with ⟨he, he'⟩ | ⟨e, e', he, he', hR⟩
  · rw [he, he']
    exact h.text_nil
  · rw [he, he']
    exact h.text hR

theorem document_paired (scope : Scope) :
    ∀ (names : List String) {r r' : Registry}, Alike R r r' →
      Paired R T (document ctx scope names r) (document ctx' scope names r')
  | [], r, r', hr => .done h.text_nil hr
  | name :: names, r, r', hr => by
    rw [document, document]
    split
    · refine (request_paired h hr name).andThen fun id id' t t' hid ht => ?_
      subst hid
      have hmark : Alike R (t.markRendered id) (t'.markRendered id) :=
        ⟨ht.shared, ht.size, ht.entries, ht.stack, congrArg (Array.push · id) ht.rendered,
          ht.queries⟩
      refine (document_paired scope names hmark).andThen fun rest rest' u u' hrest hu => ?_
      exact .done (h.text_append (ht.textOf h id) hrest) hu
    · exact document_paired scope names hr

end Operations

/-! ### Histories -/

/-- Two answers of operations: the same one, or texts that `T` relates. -/
inductive Answer.Alike (T : String → String → Prop) : Answer → Answer → Prop where
  | entry (id : ClassId) : Answer.Alike T (.entry id) (.entry id)
  | done : Answer.Alike T .done .done
  | text {document document' : String} (related : T document document') :
      Answer.Alike T (.text document) (.text document')
  | noEntry : Answer.Alike T .noEntry .noEntry

section Histories

variable (h : Lockstep ctx ctx' R T)
include h

theorem perform_paired (op : Op) (hr : Alike R r r') :
    Paired R (Answer.Alike T) (op.perform ctx r) (op.perform ctx' r') := by
  cases op with
  | request name =>
    refine (request_paired h hr name).andThen fun id id' t t' hid ht => ?_
    exact .done (hid ▸ .entry id) ht
  | resolveClass name =>
    refine (resolveClass_paired h hr name).andThen fun id id' t t' hid ht => ?_
    exact .done (hid ▸ .entry id) ht
  | resolve id =>
    have hsize : r'.entries.size = r.entries.size := hr.size
    rw [Op.perform, Op.perform]
    by_cases hlt : id < r.entries.size
    · rw [dif_pos hlt, dif_pos (by rw [hsize]; exact hlt)]
      exact (resolve_paired h hr _ _).andThen fun _ _ t t' _ ht => .done .done ht
    · rw [dif_neg hlt, dif_neg (by rw [hsize]; exact hlt)]
      exact .done .noEntry hr
  | document names scope =>
    refine (document_paired h scope names hr).andThen fun text text' t t' htext ht => ?_
    exact .done (.text htext) ht

/-- The same operations on registries that are alike do not come to an end either way, or give alike
results and lead to registries that are alike. -/
theorem play_paired (ops : List Op) (hr : Alike R r r') :
    (play ctx ops r = none ∧ play ctx' ops r' = none) ∨
      ∃ answers s answers' s', play ctx ops r = some (answers, s) ∧
        play ctx' ops r' = some (answers', s') ∧
        List.Forall₂ (ResultsAlike (Answer.Alike T)) answers answers' ∧ Alike R s s' := by
  induction ops generalizing r r' with
  | nil => exact .inr ⟨[], r, [], r', rfl, rfl, .nil, hr⟩
  | cons op ops ih =>
    have hop := perform_paired h op hr
    rw [play, play]
    revert hop
    generalize op.perform ctx r = o
    generalize op.perform ctx' r' = o'
    intro hop
    cases hop with
    | endless => exact .inl ⟨rfl, rfl⟩
    | ended hres ht =>
      rcases ih ht with ⟨hnone, hnone'⟩ | ⟨answers, s, answers', s', hplay, hplay', hall, hs⟩
      · exact .inl ⟨by simp [hnone], by simp [hnone']⟩
      · exact .inr ⟨_, s, _, s', by simp [hplay], by simp [hplay'], .cons hres hall, hs⟩

end Histories

end ClassSurface.Registry
