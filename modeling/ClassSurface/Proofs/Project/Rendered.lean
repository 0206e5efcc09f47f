import ClassSurface.Proofs.Project.Blocks

/-! # Proofs.Project.Rendered — classes written down against documents handed out

A registry lists the classes that it wrote down, class by class, while a document is handed out only
when the last of its classes is written. A document that fails leaves behind what it had written
before it failed.

* `drafted`: the classes that a document writes down until it ends, completed or not.
* `writings`: the classes that operations write down, each with whether it was delivered.
* `play_writings`: the list of a registry is that of all its writings, and the documents handed out
  are the texts of those delivered.
* `rendered_iff_delivered`: so list and documents agree, in texts and in counts, exactly if no
  document failed after it had written something down.
-/

namespace ClassSurface.Registry

/-! ### What operations write down -/

/-- The classes that a document writes down: those in scope, up to the first that cannot be had. -/
def drafted (ctx : Context) (scope : Scope) : List String → Registry → List ClassId
  | [], _ => []
  | name :: names, r =>
    if scope.contains name then
      match r.request ctx name with
      | some (.ok id, s) => id :: drafted ctx scope names (s.markRendered id)
      | _ => []
    else drafted ctx scope names r

def Op.drafted (ctx : Context) : Op → Registry → List ClassId
  | document names scope, r => Registry.drafted ctx scope names r
  | _, _ => []

/-- A class that was written down. -/
structure Writing where
  id : ClassId
  /-- Whether the document was completed that the class was written for. -/
  delivered : Bool

/-- All that operations write down, in order. -/
def writings (ctx : Context) : List Op → Registry → List Writing
  | [], _ => []
  | op :: ops, r =>
    match op.perform ctx r with
    | none => []
    | some (res, s) => (op.drafted ctx r).map (⟨·, (failure? res).isNone⟩) ++ writings ctx ops s

def delivered (ctx : Context) (ops : List Op) (r : Registry) : List ClassId :=
  ((writings ctx ops r).filter (·.delivered)).map (·.id)

def Answer.document? : Answer → Option String
  | text document => some document
  | _ => none

/-- The documents among the answers, one after the other. -/
def handedOut (answers : List (Except ResolveError Answer)) : String :=
  String.join (answers.filterMap fun answer => answer.toOption.bind Answer.document?)

/-- The texts of entries, each followed by an empty line. -/
def textOfAll (r : Registry) (ids : List ClassId) : String :=
  String.join (ids.map (r.textOf · ++ "\n"))

/-- The texts of the classes written down, each followed by an empty line. -/
def renderedText (r : Registry) : String := String.join (r.renderedEntries.map (·.2.text ++ "\n"))

def outlinesOf (r : Registry) (ids : List ClassId) : List Outline :=
  ids.filterMap fun id => r.entries[id]?.map Entry.outline

variable {ctx : Context} {docs : DocReader} {r s : Registry}

@[simp] theorem textOfAll_append (r : Registry) (ids ids' : List ClassId) :
    r.textOfAll (ids ++ ids') = r.textOfAll ids ++ r.textOfAll ids' := by
  rw [textOfAll, List.map_append, String.join_append, textOfAll, textOfAll]

/-- What is written of resolved entries stays what it is. -/
theorem textOfAll_eq_of_grows (hg : Grows r s) {ids : List ClassId}
    (hids : ∀ id ∈ ids, ∃ e, r.entries[id]? = some e ∧ e.isResolved = true) :
    s.textOfAll ids = r.textOfAll ids := by
  rw [textOfAll, textOfAll]
  congr 1
  refine List.map_congr_left fun id hid => ?_
  obtain ⟨e, he, hres⟩ := hids id hid
  rw [textOf, textOf, he, hg.getElem?_of_resolved he hres]

theorem Sound.renderedText_eq (hs : Sound docs r) :
    r.renderedText = r.textOfAll r.rendered.toList := by
  rw [renderedText, renderedEntries, List.map_filterMap, textOfAll]
  congr 1
  refine List.filterMap_eq_map_iff_forall_eq_some.mpr fun id hid => ?_
  obtain ⟨e, he, -⟩ := hs.rendered_resolved id (Array.mem_toList_iff.mp hid)
  rw [textOf, he]
  rfl

/-! ### One operation -/

/-- Whether it is completed or not, a document adds to the list what it writes down. -/
theorem document_rendered (scope : Scope) :
    ∀ (names : List String) {r : Registry} {res : Except ResolveError String}, Sound ctx.docs r →
      document ctx scope names r = some (res, s) →
      s.rendered.toList = r.rendered.toList ++ drafted ctx scope names r
  | [], r, res, _, h => by
    cases h
    simp [drafted]
  | name :: names, r, res, hs, h => by
    rw [document] at h
    rw [drafted]
    split at h
    · rename_i hscope
      rw [if_pos hscope]
      rcases Outcome.andThen_eq_some h with ⟨error, hreq, -⟩ | ⟨id, t, hreq, h⟩
      · rw [hreq, (request_excursion hs hreq).rendered]
        simp
      · obtain ⟨res', hrest, -⟩ := Outcome.andThen_ok_eq_some h
        have hrun := request_excursion hs hreq
        obtain ⟨e, he, -, hres⟩ := provides_of_request hs hreq
        have ht : Sound ctx.docs (t.markRendered id) :=
          (Step.render id e he hres).sound (hrun.steps.sound hs)
        have hmark : (t.markRendered id).rendered.toList = r.rendered.toList ++ [id] := by
          rw [markRendered, hrun.rendered, Array.toList_push]
        rw [hreq, document_rendered scope names ht hrest, hmark, List.append_assoc,
          List.singleton_append]
    · rename_i hscope
      rw [if_neg hscope]
      exact document_rendered scope names hs h

/-- A document that is handed out is the texts of the classes written down for it. -/
theorem document_eq_drafted (hs : Sound ctx.docs r) {scope : Scope} {names : List String}
    {text : String} (h : document ctx scope names r = some (.ok text, s)) :
    text = s.textOfAll (drafted ctx scope names r) := by
  obtain ⟨ids, hids, -, rfl⟩ := document_written scope names hs h
  rw [document_rendered scope names hs h] at hids
  rw [List.append_cancel_left hids, textOfAll]

theorem resolve_excursion {id : ClassId} (hs : Sound ctx.docs r) (hid : id < r.entries.size)
    {res : Except ResolveError Unit} (h : r.resolve ctx id hid = some (res, s)) :
    Excursion ctx r s :=
  ((resolving_of_resolveWith h).delivers (requestWithin_delivers ctx ctx.source.depth) hs
    (Array.getElem?_eq_getElem hid)).1

theorem resolveClass_excursion {name : String} (hs : Sound ctx.docs r)
    {res : Except ResolveError ClassId} (h : r.resolveClass ctx name = some (res, s)) :
    Excursion ctx r s := by
  rcases Outcome.andThen_eq_some h with ⟨error, hreq, -⟩ | ⟨id, t, hreq, h⟩
  · exact request_excursion hs hreq
  · have hrun := request_excursion hs hreq
    split at h
    · obtain ⟨_, hres, -⟩ := Outcome.andThen_ok_eq_some h
      exact hrun.trans (resolve_excursion (hrun.steps.sound hs) _ hres)
    · cases h
      exact hrun

/-- An operation is a document, or an excursion that hands out no text. -/
theorem Op.document_or_excursion (hs : Sound ctx.docs r) {op : Op}
    {res : Except ResolveError Answer} (h : op.perform ctx r = some (res, s)) :
    (∃ names scope res', op = .document names scope ∧
      Registry.document ctx scope names r = some (res', s) ∧ res = res'.map .text) ∨
    (op.drafted ctx r = [] ∧ Excursion ctx r s ∧
      ∀ answer, res = .ok answer → answer.document? = none) := by
  have hentry : ∀ (res : Except ResolveError ClassId) (answer : Answer),
      res.map Answer.entry = .ok answer → answer.document? = none := by
    rintro (error | id) answer ⟨⟩
    rfl
  cases op with
  | request name =>
    obtain ⟨res', hreq, rfl⟩ := Outcome.andThen_ok_eq_some h
    exact .inr ⟨rfl, request_excursion hs hreq, hentry res'⟩
  | resolveClass name =>
    obtain ⟨res', hclass, rfl⟩ := Outcome.andThen_ok_eq_some h
    exact .inr ⟨rfl, resolveClass_excursion hs hclass, hentry res'⟩
  | resolve id =>
    rw [Op.perform] at h
    split at h
    · obtain ⟨res', hres, rfl⟩ := Outcome.andThen_ok_eq_some h
      refine .inr ⟨rfl, resolve_excursion hs _ hres, ?_⟩
      rcases res' with error | _ <;> rintro answer ⟨⟩
      rfl
    · cases h
      refine .inr ⟨rfl, .refl r, ?_⟩
      rintro answer ⟨⟩
      rfl
  | document names scope =>
    obtain ⟨res', hdoc, rfl⟩ := Outcome.andThen_ok_eq_some h
    exact .inl ⟨names, scope, res', rfl, hdoc, rfl⟩

/-- What an operation writes down is added to the list, and is what it hands out if it succeeds. -/
theorem Op.perform_writes (hs : Sound ctx.docs r) {op : Op} {res : Except ResolveError Answer}
    (h : op.perform ctx r = some (res, s)) :
    s.rendered.toList = r.rendered.toList ++ op.drafted ctx r ∧
      ∀ answer, res = .ok answer →
        answer.document?.getD "" = s.textOfAll (op.drafted ctx r) := by
  rcases op.document_or_excursion hs h with ⟨names, scope, res', rfl, hdoc, rfl⟩ |
    ⟨hnone, hrun, hanswer⟩
  · refine ⟨document_rendered scope names hs hdoc, ?_⟩
    rcases res' with error | text <;> rintro answer ⟨⟩
    exact document_eq_drafted hs hdoc
  · rw [hnone, hrun.rendered]
    refine ⟨(List.append_nil _).symm, fun answer hok => ?_⟩
    rw [hanswer answer hok]
    rfl

/-! ### Any number of operations -/

theorem handedOut_cons (answer : Except ResolveError Answer)
    (answers : List (Except ResolveError Answer)) :
    handedOut (answer :: answers) =
      (answer.toOption.bind Answer.document?).getD "" ++ handedOut answers := by
  rw [handedOut, handedOut, List.filterMap_cons]
  cases answer.toOption.bind Answer.document? <;> simp

/-- The list of a registry holds all that was written down, and the documents handed out are the
texts of what was delivered. -/
theorem play_writings (ops : List Op) {answers : List (Except ResolveError Answer)}
    (hs : Sound ctx.docs r) (h : play ctx ops r = some (answers, s)) :
    s.rendered.toList = r.rendered.toList ++ (writings ctx ops r).map (·.id) ∧
      handedOut answers = s.textOfAll (delivered ctx ops r) := by
  induction ops generalizing r answers with
  | nil =>
    cases h
    exact ⟨(List.append_nil _).symm, rfl⟩
  | cons op ops ih =>
    obtain ⟨res, t, rest, hop, hplay, rfl⟩ := play_cons_eq_some h
    have ht : Sound ctx.docs t := (op.perform_steps hs hop).1.sound hs
    obtain ⟨hrendered, htext⟩ := op.perform_writes hs hop
    obtain ⟨hrendered', htext'⟩ := ih ht hplay
    have hids : (op.drafted ctx r).map (Writing.id ∘ (⟨·, (failure? res).isNone⟩)) =
        op.drafted ctx r := List.map_id _
    constructor
    · rw [hrendered', hrendered, writings, hop, List.map_append, List.map_map, hids,
        List.append_assoc]
    · -- the classes written down by the first operation are resolved, so their texts stay
      have hkept : s.textOfAll (op.drafted ctx r) = t.textOfAll (op.drafted ctx r) :=
        textOfAll_eq_of_grows ((play_steps ops ht hplay).1.grows ht) fun id hid =>
          ht.rendered_resolved id (Array.mem_toList_iff.mp (by simp [hrendered, hid]))
      rw [handedOut_cons, htext', delivered, delivered, writings, hop, List.filter_append,
        List.map_append, textOfAll_append]
      congr 1
      rw [List.filter_map, List.map_map]
      cases res with
      | error error => simp [failure?, Except.toOption, Function.comp_def, textOfAll]
      | ok answer =>
        simp only [failure?, Function.comp_def, Option.isNone_none, List.filter_true, List.map_id']
        rw [hkept, ← htext answer rfl]
        rfl

/-! ### When list and documents agree -/

/-- What is left out of a list of texts shows in the length of their concatenation. -/
theorem length_join_filter {α : Type} (f : α → String) (hf : ∀ a, 0 < (f a).length) (p : α → Bool)
    (l : List α) :
    (String.join ((l.filter p).map f)).length + l.countP (! p ·) ≤
      (String.join (l.map f)).length := by
  induction l with
  | nil => rfl
  | cons a l ih =>
    have ha := hf a
    rw [List.map_cons, String.join_cons, String.length_append]
    by_cases hp : p a = true
    · rw [List.filter_cons_of_pos hp, List.countP_cons_of_neg (by simp [hp]), List.map_cons,
        String.join_cons, String.length_append]
      omega
    · rw [List.filter_cons_of_neg hp, List.countP_cons_of_pos (by simp [hp])]
      omega

/-- Texts that are not empty give the same concatenation without some of them only if none is left
out. -/
theorem join_filter_eq_iff {α : Type} (f : α → String) (hf : ∀ a, 0 < (f a).length) (p : α → Bool)
    (l : List α) :
    String.join (l.map f) = String.join ((l.filter p).map f) ↔ ∀ a ∈ l, p a = true := by
  constructor
  · intro heq
    have hle := length_join_filter f hf p l
    rw [heq] at hle
    have hzero : l.countP (! p ·) = 0 := by omega
    simpa using List.countP_eq_zero.mp hzero
  · intro hall
    rw [List.filter_eq_self.mpr hall]

theorem Sound.length_outlinesOf (hs : Sound docs r) {ids : List ClassId}
    (hids : ∀ id ∈ ids, id ∈ r.rendered) : (r.outlinesOf ids).length = ids.length := by
  rw [outlinesOf, List.length_filterMap_eq_countP, List.countP_eq_length]
  intro id hid
  obtain ⟨e, he, -⟩ := hs.rendered_resolved id (hids id hid)
  rw [he]
  rfl

theorem renderedOutlines_eq_outlinesOf (r : Registry) :
    r.renderedOutlines = r.outlinesOf r.rendered.toList := by
  rw [renderedOutlines, renderedEntries, List.map_filterMap, outlinesOf]
  congr 1
  funext id
  rw [Option.map_map]
  rfl

section

variable {shared : Bool} {ops : List Op} {answers : List (Except ResolveError Answer)}

/-- The texts of the list are the documents handed out exactly if everything was delivered. -/
theorem renderedText_eq_iff (h : play ctx ops { shared } = some (answers, r)) :
    r.renderedText = handedOut answers ↔
      ∀ w ∈ writings ctx ops { shared }, w.delivered = true := by
  have hreach : Reachable ctx shared r := ⟨ops, answers, h⟩
  obtain ⟨hlist, hdocs⟩ := play_writings ops (sound_new _ shared) h
  have hlist : r.rendered.toList = (writings ctx ops { shared }).map (·.id) := hlist
  rw [hreach.sound.renderedText_eq, hdocs, hlist, delivered, textOfAll, textOfAll, List.map_map,
    List.map_map]
  refine join_filter_eq_iff _ (fun w => ?_) _ _
  rw [Function.comp_apply, String.length_append]
  exact Nat.lt_add_left _ Nat.one_pos

/-- The counts are those of the classes delivered exactly if everything was delivered. -/
theorem collect_eq_iff (h : play ctx ops { shared } = some (answers, r)) :
    Stats.collect r = Stats.ofOutlines r.size (r.outlinesOf (delivered ctx ops { shared })) ↔
      ∀ w ∈ writings ctx ops { shared }, w.delivered = true := by
  have hs : Sound ctx.docs r := Reachable.sound ⟨ops, answers, h⟩
  obtain ⟨hlist, -⟩ := play_writings ops (sound_new _ shared) h
  have hlist : r.rendered.toList = (writings ctx ops { shared }).map (·.id) := hlist
  have hmem : ∀ id ∈ (writings ctx ops { shared }).map (·.id), id ∈ r.rendered := by
    intro id hid
    rw [← Array.mem_toList_iff, hlist]
    exact hid
  have hdelivered : ∀ id ∈ delivered ctx ops { shared }, id ∈ r.rendered :=
    fun id hid => hmem id (List.map_subset _ List.filter_sublist.subset hid)
  rw [Stats.collect_eq, renderedOutlines_eq_outlinesOf, hlist]
  constructor
  · intro heq
    have hlength : (r.outlinesOf ((writings ctx ops { shared }).map (·.id))).length =
        (r.outlinesOf (delivered ctx ops { shared })).length := congrArg Stats.inScopeClasses heq
    rw [hs.length_outlinesOf hmem, hs.length_outlinesOf hdelivered, List.length_map, delivered,
      List.length_map] at hlength
    exact List.filter_eq_self.mp (List.filter_sublist.eq_of_length hlength.symm)
  · intro hall
    rw [delivered, List.filter_eq_self.mpr hall]

end

/-- **What the list of written classes is worth**: whatever the source answers, whether entries are
shared or not, and however many operations failed, the list of a registry is all that documents
wrote down, and the documents handed out are the texts of the classes delivered. The texts of the
list are the documents handed out, and the counts are those of the classes delivered, exactly if
every class written down was delivered: if no document failed after it had written a class. -/
theorem rendered_iff_delivered (ctx : Context) (shared : Bool) (ops : List Op)
    (answers : List (Except ResolveError Answer)) (r : Registry)
    (h : play ctx ops { shared } = some (answers, r)) :
    r.rendered.toList = (writings ctx ops { shared }).map (·.id) ∧
    handedOut answers = r.textOfAll (delivered ctx ops { shared }) ∧
    (r.renderedText = handedOut answers ↔
      ∀ w ∈ writings ctx ops { shared }, w.delivered = true) ∧
    (Stats.collect r = Stats.ofOutlines r.size (r.outlinesOf (delivered ctx ops { shared })) ↔
      ∀ w ∈ writings ctx ops { shared }, w.delivered = true) := by
  obtain ⟨hlist, hdocs⟩ := play_writings ops (sound_new _ shared) h
  exact ⟨hlist, hdocs, renderedText_eq_iff h, collect_eq_iff h⟩

def workshop : Codebase := .ofList
  [{ name := "Bench", methods := [{ name := "clamp", returnType := some "int" }] }]

/-- Between two documents of one class a third fails before it has written anything, so list,
documents and counts agree. -/
theorem rendered_iff_delivered_workshop : ∃ answers r,
    play (workshop.context .rejecting) [.document ["Bench"] (.only ""),
      .document ["Ghost", "Bench"] (.only ""), .document ["Bench"] (.only "")] {} =
        some (answers, r) ∧
    answers.filterMap failure? = [.source (.unknownClass "Ghost")] ∧
    handedOut answers = "Bench\nint public clamp()\n\nBench\nint public clamp()\n\n" ∧
    r.renderedText = handedOut answers ∧
    Stats.collect r = Stats.ofOutlines r.size (r.outlinesOf [0, 0]) := by
  have hplay : (play (workshop.context .rejecting) [.document ["Bench"] (.only ""),
      .document ["Ghost", "Bench"] (.only ""), .document ["Bench"] (.only "")] {}).map (fun p =>
        (p.1.filterMap failure?, handedOut p.1)) = some ([.source (.unknownClass "Ghost")],
          "Bench\nint public clamp()\n\nBench\nint public clamp()\n\n") := by
    decide +kernel
  have hwritings : (writings (workshop.context .rejecting) [.document ["Bench"] (.only ""),
      .document ["Ghost", "Bench"] (.only ""), .document ["Bench"] (.only "")] {}).all
        (·.delivered) = true := by
    decide +kernel
  have hdelivered : delivered (workshop.context .rejecting) [.document ["Bench"] (.only ""),
      .document ["Ghost", "Bench"] (.only ""), .document ["Bench"] (.only "")] {} = [0, 0] := by
    decide +kernel
  obtain ⟨⟨answers, r⟩, hplay, heq⟩ := Option.map_eq_some_iff.mp hplay
  obtain ⟨hfailed, hdocs⟩ := Prod.mk.inj heq
  obtain ⟨-, -, htext, hcounts⟩ := rendered_iff_delivered _ _ _ answers r hplay
  have hall := List.all_eq_true.mp hwritings
  rw [hdelivered] at hcounts
  exact ⟨answers, r, hplay, hfailed, hdocs, htext.mpr hall, hcounts.mpr hall⟩

/-- A class that is written down before its document fails stays in the list and in the counts,
though it is in no document. -/
theorem rendered_without_document : ∃ answers r,
    play (workshop.context .rejecting) [.document ["Bench", "Ghost"] (.only "")] {} =
      some (answers, r) ∧
    handedOut answers = "" ∧ r.renderedText = "Bench\nint public clamp()\n\n" ∧
    r.renderedText ≠ handedOut answers ∧ (Stats.collect r).inScopeClasses = 1 ∧
    (Stats.collect r).methods = 1 := by
  have hplay : (play (workshop.context .rejecting) [.document ["Bench", "Ghost"] (.only "")]
      {}).map (fun p => (handedOut p.1, p.2.renderedText, (Stats.collect p.2).inScopeClasses,
        (Stats.collect p.2).methods)) = some ("", "Bench\nint public clamp()\n\n", 1, 1) := by
    decide +kernel
  obtain ⟨⟨answers, r⟩, hplay, heq⟩ := Option.map_eq_some_iff.mp hplay
  simp only [Prod.mk.injEq] at heq
  obtain ⟨hdocs, htext, hclasses, hmethods⟩ := heq
  refine ⟨answers, r, hplay, hdocs, htext, ?_, hclasses, hmethods⟩
  rw [hdocs, htext]
  decide

end ClassSurface.Registry
