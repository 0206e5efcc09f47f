import ClassSurface.Proofs.Registry.History

/-! # Proofs.Registry.Queries — what operations ask the source

`queriesWithin`, `Op.queries` and `queriesOf` list the questions that a request, an operation and
any number of operations put to the source, each with its answer and in the order in which they are
put.

* `Asks`: the number of queries grows by the length of the list, the answers are those that the
  source gives at that point, and the names that were answered are those of the new entries, in
  order.
* `Straight`: nothing is asked after a refusal, and what succeeds was refused nothing.
* `Op.queries_asksTo`, `queriesOf_asks`: this holds of every operation, whether it succeeds or
  fails, and of whole histories.
-/

namespace ClassSurface

/-- A question to the source, with its answer. -/
structure Query where
  name : String
  answer : Except SourceError ClassView

def Query.isAnswered (q : Query) : Bool := q.answer.isOk

/-- The names that the source gave a view of, in the order in which it was asked. -/
def answeredNames (qs : List Query) : List String := (qs.filter Query.isAnswered).map (·.name)

/-- What is asked after a success; after a failure that is nothing. -/
def Outcome.queriesThen {α : Type} (o : Outcome α) (next : α → Registry → List Query) :
    List Query :=
  match o with
  | some (.ok a, r) => next a r
  | _ => []

@[simp] theorem Outcome.queriesThen_error {α : Type} (error : ResolveError) (r : Registry)
    (next : α → Registry → List Query) :
    Outcome.queriesThen (some (.error error, r)) next = [] := rfl

@[simp] theorem Outcome.queriesThen_ok {α : Type} (a : α) (r : Registry)
    (next : α → Registry → List Query) : Outcome.queriesThen (some (.ok a, r)) next = next a r :=
  rfl

namespace Registry

/-- The names under which entries were requested, by the numbers of the entries. -/
def names (r : Registry) : List String := r.entries.toList.map (·.requested)

/-! ### The questions, along the operations -/

/-- The queries of requests made one after the other; `asks` gives those of a single one. -/
def queriesOfAll (request : String → Registry → Outcome ClassId)
    (asks : String → Registry → List Query) : List String → Registry → List Query
  | [], _ => []
  | name :: names, r =>
    asks name r ++ (request name r).queriesThen fun _ s => queriesOfAll request asks names s

/-- The queries of an attempt to resolve the entry `e`, which has the number `id`. -/
def queriesOfResolve (request : String → Registry → Outcome ClassId)
    (asks : String → Registry → List Query) (id : ClassId) (e : Entry) (r : Registry) :
    List Query :=
  if e.isResolved then []
  else if r.isUnderWay id e then []
  else queriesOfAll request asks e.view.ancestors (r.takeUp id e)

/-- The queries of a request that may nest `depth` deep. -/
def queriesWithin (ctx : Context) : Nat → String → Registry → List Query
  | 0, _, _ => []
  | depth + 1, name, r =>
    match r.reusable? name with
    | some (id, e) =>
      queriesOfResolve (requestWithin ctx depth) (queriesWithin ctx depth) id e r
    | none =>
      match ctx.source.answer r.queries name with
      | .error error => [⟨name, .error error⟩]
      | .ok view =>
        ⟨name, .ok view⟩ :: queriesOfResolve (requestWithin ctx depth) (queriesWithin ctx depth)
          r.size (r.newEntry name view) (r.accept name view)

/-- The queries of an attempt to resolve the entry number `id`. -/
def queriesOfEntry (ctx : Context) (id : ClassId) (r : Registry) : List Query :=
  if h : id < r.entries.size then
    queriesOfResolve (requestWithin ctx ctx.source.depth) (queriesWithin ctx ctx.source.depth) id
      r.entries[id] r
  else []

/-- The queries of a document. -/
def queriesOfDocument (ctx : Context) (scope : Scope) : List String → Registry → List Query
  | [], _ => []
  | name :: names, r =>
    if scope.contains name then
      queriesWithin ctx ctx.source.depth name r ++ (r.request ctx name).queriesThen fun id s =>
        queriesOfDocument ctx scope names (s.markRendered id)
    else queriesOfDocument ctx scope names r

/-- The queries of one operation. -/
def Op.queries (ctx : Context) : Op → Registry → List Query
  | request name, r => queriesWithin ctx ctx.source.depth name r
  | resolveClass name, r =>
    queriesWithin ctx ctx.source.depth name r ++
      (r.request ctx name).queriesThen fun id s => queriesOfEntry ctx id s
  | resolve id, r => queriesOfEntry ctx id r
  | document names scope, r => queriesOfDocument ctx scope names r

/-- The queries of operations made one after the other, whether they succeed or fail. -/
def queriesOf (ctx : Context) : List Op → Registry → List Query
  | [], _ => []
  | op :: ops, r =>
    op.queries ctx r ++
      match op.perform ctx r with
      | none => []
      | some (_, s) => queriesOf ctx ops s

variable {ctx : Context} {r r' s s' t : Registry} {qs qs' : List Query} {name : String}
  {id : ClassId} {e : Entry}

/-! ### Names of entries -/

@[simp] theorem length_names (r : Registry) : r.names.length = r.size := by
  simp [names, size]

theorem getElem?_names (r : Registry) (id : ClassId) :
    r.names[id]? = r.entries[id]?.map (·.requested) := by
  simp [names]

theorem mem_names_iff : name ∈ r.names ↔
    ∃ (id : ClassId) (e : Entry), r.entries[id]? = some e ∧ e.requested = name := by
  rw [List.mem_iff_getElem?]
  simp only [getElem?_names, Option.map_eq_some_iff]

/-- The index of a registry is read off the names of its entries. -/
theorem idOf?_eq_findIdx? (r : Registry) (name : String) :
    r.idOf? name = r.names.findIdx? (· = name) := by
  rw [idOf?, names, List.findIdx?_map, ← List.findIdx?_toArray, Array.toArray_toList]
  rfl

@[simp] theorem names_accept (r : Registry) (name : String) (view : ClassView) :
    (r.accept name view).names = r.names ++ [name] := by
  simp [names, accept, register, countQuery]

/-- An entry that gets its surface keeps its name. -/
@[simp] theorem names_complete (r : Registry) (docs : DocReader) (id : ClassId) (v : ClassView)
    (ids : List ClassId) : (r.complete docs id v ids).leave.names = r.names := by
  refine List.ext_getElem? fun i => ?_
  rw [getElem?_names, getElem?_names, getElem?_complete]
  by_cases hi : id = i
  · rw [if_pos hi, Option.map_map]
    rfl
  · rw [if_neg hi]

/-! ### What a list of queries does -/

/-- `qs` is what was asked on the way from `r` to `s`. -/
structure Asks (ctx : Context) (r : Registry) (qs : List Query) (s : Registry) : Prop where
  count : s.queries = r.queries + qs.length
  /-- Each answer is the one that the source gives at that point. -/
  answers : ∀ (k : Nat) (q : Query), qs[k]? = some q →
    ctx.source.answer (r.queries + k) q.name = q.answer
  /-- There is one new entry for each name that was answered. -/
  names : s.names = r.names ++ answeredNames qs

theorem answeredNames_append (qs qs' : List Query) :
    answeredNames (qs ++ qs') = answeredNames qs ++ answeredNames qs' := by
  simp [answeredNames]

/-- Every query adds an entry or is refused. -/
theorem length_answeredNames (qs : List Query) :
    qs.length = (answeredNames qs).length + qs.countP (! ·.isAnswered) := by
  rw [answeredNames, List.length_map, ← List.countP_eq_length_filter,
    List.length_eq_countP_add_countP Query.isAnswered]
  congr 2
  funext q
  cases q.isAnswered <;> rfl

theorem Asks.nil (hq : s.queries = r.queries) (hn : s.names = r.names) : Asks ctx r [] s where
  count := by simpa using hq
  answers := by simp
  names := by simpa [answeredNames] using hn

theorem Asks.append (h : Asks ctx r qs t) (h' : Asks ctx t qs' s) : Asks ctx r (qs ++ qs') s where
  count := by
    rw [h'.count, h.count, List.length_append]
    omega
  answers := by
    intro k q hq
    by_cases hk : k < qs.length
    · rw [List.getElem?_append_left hk] at hq
      exact h.answers k q hq
    · have hk : qs.length ≤ k := by omega
      rw [List.getElem?_append_right hk] at hq
      have hanswer := h'.answers (k - qs.length) q hq
      rw [h.count] at hanswer
      rwa [show r.queries + qs.length + (k - qs.length) = r.queries + k by omega] at hanswer
  names := by rw [h'.names, h.names, answeredNames_append, List.append_assoc]

/-- Only the number of queries and the names of the entries matter. -/
theorem Asks.congr (h : Asks ctx r qs s) (hq : r'.queries = r.queries) (hn : r'.names = r.names)
    (hq' : s'.queries = s.queries) (hn' : s'.names = s.names) : Asks ctx r' qs s' := by
  have hleft : Asks ctx r' ([] ++ qs) s := (Asks.nil hq.symm hn.symm).append h
  have hright : Asks ctx r' (([] ++ qs) ++ []) s' := hleft.append (.nil hq' hn')
  simpa using hright

/-- Nothing is asked after a refusal, and what succeeds was refused nothing. -/
structure Straight {α : Type} (qs : List Query) (res : Except ResolveError α) : Prop where
  last : ∀ q ∈ qs.dropLast, q.isAnswered = true
  clean : ∀ a, res = .ok a → ∀ q ∈ qs, q.isAnswered = true

theorem Straight.nil {α : Type} (res : Except ResolveError α) : Straight [] res :=
  ⟨by simp, by simp⟩

theorem Straight.append {α β : Type} {a : α} {res : Except ResolveError β}
    (h : Straight qs (.ok a : Except ResolveError α)) (h' : Straight qs' res) :
    Straight (qs ++ qs') res where
  last := by
    intro q hq
    by_cases hnil : qs' = []
    · rw [hnil, List.append_nil] at hq
      exact h.last q hq
    · rw [List.dropLast_append_of_ne_nil hnil, List.mem_append] at hq
      rcases hq with hq | hq
      · exact h.clean a rfl q hq
      · exact h'.last q hq
  clean := by
    intro b hb q hq
    rcases List.mem_append.mp hq with hq | hq
    · exact h.clean a rfl q hq
    · exact h'.clean b hb q hq

theorem Straight.of_error {α β : Type} {error : ResolveError}
    (h : Straight qs (.error error : Except ResolveError α)) (error' : ResolveError) :
    Straight qs (.error error' : Except ResolveError β) :=
  ⟨h.last, fun _ hb => nomatch hb⟩

/-- At most one query is refused. -/
theorem Straight.countP_le_one {α : Type} {res : Except ResolveError α} (h : Straight qs res) :
    qs.countP (! ·.isAnswered) ≤ 1 := by
  rcases List.eq_nil_or_concat qs with rfl | ⟨front, q, rfl⟩
  · simp
  · have hfront : front.countP (! ·.isAnswered) = 0 := by
      rw [List.countP_eq_zero]
      intro p hp
      have hp : p.isAnswered = true := h.last p (by simpa using hp)
      simp [hp]
    have hone : List.countP (! ·.isAnswered) [q] ≤ 1 := List.countP_le_length
    simp only [List.concat_eq_append, List.countP_append, hfront]
    omega

/-! ### Operations ask what is listed -/

/-- `qs` is what the operation on `r` that comes to `o` asks. -/
def AsksTo {α : Type} (ctx : Context) (r : Registry) (qs : List Query) (o : Outcome α) : Prop :=
  ∀ ⦃res : Except ResolveError α⦄ ⦃s : Registry⦄, o = some (res, s) →
    Asks ctx r qs s ∧ Straight qs res

theorem AsksTo.done {α : Type} (res : Except ResolveError α) :
    AsksTo ctx r [] (some (res, r)) := by
  intro res' s h
  cases h
  exact ⟨.nil rfl rfl, .nil res⟩

theorem AsksTo.andThen {α β : Type} {o : Outcome α} {f : α → Registry → Outcome β}
    {next : α → Registry → List Query} (ho : AsksTo ctx r qs o)
    (hf : ∀ a t, o = some (.ok a, t) → AsksTo ctx t (next a t) (f a t)) :
    AsksTo ctx r (qs ++ o.queriesThen next) (o.andThen f) := by
  intro res s h
  rcases Outcome.andThen_eq_some h with ⟨error, ho', rfl⟩ | ⟨a, t, ho', h⟩
  · obtain ⟨hasks, hstraight⟩ := ho ho'
    rw [ho', Outcome.queriesThen_error, List.append_nil]
    exact ⟨hasks, hstraight.of_error error⟩
  · obtain ⟨hasks, hstraight⟩ := ho ho'
    obtain ⟨hasks', hstraight'⟩ := hf a t ho' h
    rw [ho', Outcome.queriesThen_ok]
    exact ⟨hasks.append hasks', hstraight.append hstraight'⟩

/-- To make something of a result asks nothing more. -/
theorem AsksTo.map {α β : Type} {o : Outcome α} (ho : AsksTo ctx r qs o) (f : α → β) :
    AsksTo ctx r qs (o.andThen fun a s => some (.ok (f a), s)) := by
  intro res s h
  obtain ⟨res', ho', rfl⟩ := Outcome.andThen_ok_eq_some h
  obtain ⟨hasks, hstraight⟩ := ho ho'
  refine ⟨hasks, hstraight.last, fun b hb => ?_⟩
  cases res' with
  | error error => cases hb
  | ok a => exact hstraight.clean a rfl

section Nested

variable {request : String → Registry → Outcome ClassId} {asks : String → Registry → List Query}
  (hreq : ∀ name r, AsksTo ctx r (asks name r) (request name r))
include hreq

theorem queriesOfAll_asksTo :
    ∀ (names : List String) (r : Registry),
      AsksTo ctx r (queriesOfAll request asks names r) (requestAll request names r)
  | [], r => .done _
  | name :: names, r => by
    rw [queriesOfAll, requestAll]
    exact (hreq name r).andThen fun id t _ => (queriesOfAll_asksTo names t).map (id :: ·)

theorem queriesOfResolve_asksTo (id : ClassId) (e : Entry) (r : Registry) :
    AsksTo ctx r (queriesOfResolve request asks id e r) (resolveWith ctx.docs request id e r) := by
  intro res s h
  have hall := queriesOfAll_asksTo hreq e.view.ancestors (r.takeUp id e)
  cases resolving_of_resolveWith h with
  | before hres =>
    rw [queriesOfResolve, if_pos hres]
    exact ⟨.nil rfl rfl, .nil _⟩
  | reentered hopen hway =>
    rw [queriesOfResolve, if_neg (by simp [hopen]), if_pos hway]
    exact ⟨.nil rfl rfl, .nil _⟩
  | failed hopen hfree error t hrun =>
    obtain ⟨hasks, hstraight⟩ := hall hrun
    rw [queriesOfResolve, if_neg (by simp [hopen]), if_neg (by simp [hfree])]
    exact ⟨hasks.congr rfl rfl rfl rfl, hstraight.of_error error⟩
  | completed hopen hfree ancestors t hrun =>
    obtain ⟨hasks, hstraight⟩ := hall hrun
    rw [queriesOfResolve, if_neg (by simp [hopen]), if_neg (by simp [hfree])]
    exact ⟨hasks.congr rfl rfl rfl (names_complete ..), hstraight.last,
      fun _ _ => hstraight.clean ancestors rfl⟩

end Nested

/-- A query that is answered, before all else. -/
theorem Asks.cons_accept {view : ClassView}
    (hanswer : ctx.source.answer r.queries name = .ok view)
    (h : Asks ctx (r.accept name view) qs s) : Asks ctx r (⟨name, .ok view⟩ :: qs) s := by
  have hone : Asks ctx r [⟨name, .ok view⟩] (r.accept name view) := by
    refine ⟨rfl, fun k q hq => ?_, names_accept r name view⟩
    obtain ⟨rfl, rfl⟩ : k = 0 ∧ q = ⟨name, .ok view⟩ := by
      cases k with
      | zero => exact ⟨rfl, by simpa using hq.symm⟩
      | succ k => simp at hq
    exact hanswer
  exact hone.append h

theorem Asks.refuse {error : SourceError}
    (hanswer : ctx.source.answer r.queries name = .error error) :
    Asks ctx r [⟨name, .error error⟩] r.countQuery := by
  refine ⟨rfl, fun k q hq => ?_, ?_⟩
  · cases k with
    | zero =>
      obtain rfl : q = ⟨name, .error error⟩ := by simpa using hq.symm
      exact hanswer
    | succ k => simp at hq
  · show r.names = r.names ++ []
    rw [List.append_nil]

/-- Requests ask what is listed, however deep they may nest. -/
theorem queriesWithin_asksTo (ctx : Context) (depth : Nat) (name : String) (r : Registry) :
    AsksTo ctx r (queriesWithin ctx depth name r) (requestWithin ctx depth name r) := by
  induction depth generalizing name r with
  | zero =>
    intro res s h
    cases h
  | succ depth ih =>
    have hresolve := queriesOfResolve_asksTo ih
    cases hreuse : r.reusable? name with
    | some found =>
      obtain ⟨id, e⟩ := found
      rw [queriesWithin, requestWithin, hreuse]
      exact (hresolve id e r).map fun _ => id
    | none =>
      cases hanswer : ctx.source.answer r.queries name with
      | error error =>
        rw [queriesWithin, requestWithin, hreuse, hanswer]
        intro res s h
        cases h
        exact ⟨.refuse hanswer, by simp, fun _ ha => by cases ha⟩
      | ok view =>
        rw [queriesWithin, requestWithin, hreuse, hanswer]
        intro res s h
        obtain ⟨hasks, hstraight⟩ :=
          ((hresolve r.size (r.newEntry name view) (r.accept name view)).map
            fun _ => r.size) h
        have hfirst : Straight [⟨name, .ok view⟩] (.ok () : Except ResolveError Unit) :=
          ⟨by simp, by simp [Query.isAnswered, Except.isOk, Except.toBool]⟩
        exact ⟨hasks.cons_accept hanswer, hfirst.append hstraight⟩

theorem queriesOfEntry_asksTo (hid : id < r.entries.size) :
    AsksTo ctx r (queriesOfEntry ctx id r) (r.resolve ctx id hid) := by
  rw [queriesOfEntry, dif_pos hid]
  exact queriesOfResolve_asksTo (queriesWithin_asksTo ctx _) id r.entries[id] r

theorem queriesOfDocument_asksTo (ctx : Context) (scope : Scope) :
    ∀ (names : List String) (r : Registry),
      AsksTo ctx r (queriesOfDocument ctx scope names r) (Registry.document ctx scope names r)
  | [], r => .done _
  | name :: names, r => by
    rw [queriesOfDocument, document]
    split
    · refine (queriesWithin_asksTo ctx _ name r).andThen fun id t _ => ?_
      refine AsksTo.map (fun res s h => ?_) _
      obtain ⟨hasks, hstraight⟩ := queriesOfDocument_asksTo ctx scope names (t.markRendered id) h
      exact ⟨hasks.congr rfl rfl rfl rfl, hstraight⟩
    · exact queriesOfDocument_asksTo ctx scope names r

/-- Every operation asks what is listed, whether it succeeds or fails. -/
theorem Op.queries_asksTo (ctx : Context) (op : Op) (r : Registry) :
    AsksTo ctx r (op.queries ctx r) (op.perform ctx r) := by
  cases op with
  | request name => exact (queriesWithin_asksTo ctx _ name r).map _
  | resolveClass name =>
    refine AsksTo.map ((queriesWithin_asksTo ctx _ name r).andThen fun id t _ => ?_) _
    split
    · rename_i hid
      exact (queriesOfEntry_asksTo hid).map fun _ => id
    · rename_i hid
      rw [queriesOfEntry, dif_neg hid]
      exact .done _
  | resolve id =>
    rw [Op.queries, Op.perform]
    split
    · rename_i hid
      exact (queriesOfEntry_asksTo hid).map _
    · rename_i hid
      rw [queriesOfEntry, dif_neg hid]
      exact .done _
  | document names scope => exact (queriesOfDocument_asksTo ctx scope names r).map _

/-- Any number of operations ask what is listed. -/
theorem queriesOf_asks (ctx : Context) (ops : List Op) {r s : Registry}
    {answers : List (Except ResolveError Answer)} (h : play ctx ops r = some (answers, s)) :
    Asks ctx r (queriesOf ctx ops r) s := by
  induction ops generalizing r answers with
  | nil =>
    cases h
    exact .nil rfl rfl
  | cons op ops ih =>
    obtain ⟨answer, t, rest, hop, hplay, -⟩ := play_cons_eq_some h
    rw [queriesOf, hop]
    exact (op.queries_asksTo ctx r hop).1.append (ih hplay)

end Registry

end ClassSurface
