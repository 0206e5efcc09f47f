import ClassSurface.Proofs.Project.Blocks

/-! # Proofs.Project.Concatenation — a document is the blocks of its classes, one after the other

What a document says of a class belongs to the class alone: neither the classes before it in the
list nor anything else that was done with the registry has a part in it.

* `document_filter`, `document_append`: a document passes over what is out of scope, and a list may
  be cut anywhere, the second part being written from the registry that the first part leaves.
* `document_failure?`: a document fails as the request for the first name does that fails at all.
* `document_concatenates`: so it is made of the texts that a new registry has for the classes in
  scope, and permuting the list permutes them.
-/

namespace ClassSurface

namespace Registry

variable {ctx : Context} {r s : Registry} {name : String}

/-! ### Lists that are filtered and cut -/

/-- What is out of scope may as well be left out of the list. -/
theorem document_filter (ctx : Context) (scope : Scope) (names : List String) (r : Registry) :
    document ctx scope (names.filter scope.contains) r = document ctx scope names r := by
  induction names generalizing r with
  | nil => rfl
  | cons name names ih =>
    by_cases hscope : scope.contains name = true
    · rw [List.filter_cons_of_pos hscope, document, document, if_pos hscope, if_pos hscope]
      simp only [ih]
    · rw [List.filter_cons_of_neg hscope, document, if_neg hscope, ih]

/-- A list is written down by writing down its first part and then the rest. -/
theorem document_append (ctx : Context) (scope : Scope) (xs ys : List String) (r : Registry) :
    document ctx scope (xs ++ ys) r =
      (document ctx scope xs r).andThen fun text s =>
        (document ctx scope ys s).andThen fun rest t => some (.ok (text ++ rest), t) := by
  induction xs generalizing r with
  | nil =>
    rw [List.nil_append, document, Outcome.andThen_ok]
    simp only [String.empty_append, Outcome.andThen_done]
  | cons x xs ih =>
    rw [List.cons_append, document, document]
    split
    · rw [Outcome.andThen_assoc]
      simp only [ih, Outcome.andThen_assoc, Outcome.andThen_ok, String.append_assoc]
    · exact ih r

/-! ### How requests and documents end -/

section Codebase

variable {c : Codebase} {docs : DocReader} {id : ClassId} {e : Entry}

/-- With nothing under way, a request succeeds unless the walk from its name finds a defect. -/
theorem exists_request_ok_iff (hs : SteadySound docs c.view r) (hidle : r.stack = []) :
    (∃ id t, r.request (c.context docs) name = some (.ok id, t)) ↔ c.firstDefect [] name = none := by
  obtain ⟨⟨res, t⟩, hreq⟩ := Option.isSome_iff_exists.mp (request_isSome (c.bounded docs) hs name)
  rw [← request_failure? hs hidle hreq, hreq, failure?_eq_none_iff]
  simp

/-- With nothing under way, a request fails with the defect that the walk from its name finds. -/
theorem exists_request_error_iff (hs : SteadySound docs c.view r) (hidle : r.stack = [])
    {error : ResolveError} :
    (∃ t, r.request (c.context docs) name = some (.error error, t)) ↔
      c.firstDefect [] name = some error := by
  obtain ⟨⟨res, t⟩, hreq⟩ := Option.isSome_iff_exists.mp (request_isSome (c.bounded docs) hs name)
  rw [← request_failure? hs hidle hreq, hreq]
  cases res <;> simp [failure?]

/-- A document fails at the first name in scope from which the walk finds a defect. -/
theorem document_failure? (scope : Scope) :
    ∀ (names : List String) {r s : Registry} {res : Except ResolveError String},
      SteadySound docs c.view r → r.stack = [] →
      document (c.context docs) scope names r = some (res, s) →
      failure? res = (names.filter scope.contains).findSome? (c.firstDefect [])
  | [], r, s, res, _, _, h => by
    cases h
    rfl
  | name :: names, r, s, res, hs, hidle, h => by
    rw [document] at h
    split at h
    · rename_i hscope
      rw [List.filter_cons_of_pos hscope, List.findSome?_cons]
      rcases Outcome.andThen_eq_some h with ⟨error, hreq, rfl⟩ | ⟨id, t, hreq, h⟩
      · rw [← request_failure? hs hidle hreq]
        rfl
      · obtain ⟨res', hrest, rfl⟩ := Outcome.andThen_ok_eq_some h
        have hrun := request_excursion hs.toSound hreq
        obtain ⟨e, he, -, hres⟩ := provides_of_request hs.toSound hreq
        have ht : SteadySound docs c.view (t.markRendered id) :=
          Steps.steadySound (c.bounded docs).steady hs (hrun.steps.tail (.render id e he hres))
        rw [← request_failure? hs hidle hreq, failure?_map,
          document_failure? scope names ht (hrun.stack.trans hidle) hrest]
        rfl
    · rename_i hscope
      rw [List.filter_cons_of_neg hscope]
      exact document_failure? scope names hs hidle h

/-! ### The text of a class -/

/-- The entry number `id` was requested under `name`, is resolved, and has this text. -/
def HasText (r : Registry) (name text : String) (id : ClassId) : Prop :=
  ∃ e, r.entries[id]? = some e ∧ e.requested = name ∧ r.stateOf id e = .resolved ∧ e.text = text

/-- The text that a new registry has for a class, if the class can be resolved. -/
def freshText? (ctx : Context) (shared : Bool) (name : String) : Option String :=
  match ({ shared } : Registry).request ctx name with
  | some (.ok id, t) => t.entries[id]?.map Entry.text
  | _ => none

/-- A resolved entry has the text that a new registry has for its class, however that one shares
entries. -/
theorem SteadySound.freshText?_eq (hs : SteadySound docs c.view r) (he : r.entries[id]? = some e)
    (hres : e.isResolved = true) (fresh : Bool) :
    freshText? (c.context docs) fresh e.requested = some e.text := by
  have hnew : SteadySound docs c.view { shared := fresh } := steadySound_of_empty rfl rfl rfl
  have hnone : c.firstDefect [] e.requested = none :=
    (hs.resolvable hs.faithful he hres).firstDefect_eq_none (by simp)
  obtain ⟨i, t, hreq⟩ := (exists_request_ok_iff hnew rfl).mpr hnone
  have ht : SteadySound docs c.view t :=
    (request_excursion hnew.toSound hreq).steps.steadySound (c.bounded docs).steady hnew
  obtain ⟨e', he', hname, hres'⟩ := provides_of_request hnew.toSound hreq
  have houtline : e'.outline = e.outline := outline_eq_of_requested_eq ht.toSound ht.faithful
    hs.toSound hs.faithful he' hres' he hres hname
  have htext : e'.text = e.text := by rw [← Entry.text_outline, houtline, Entry.text_outline]
  rw [freshText?, hreq]
  show t.entries[i]?.map Entry.text = _
  rw [he', Option.map_some, htext]

/-- What a document shows of a class: the text that a new registry has for it. -/
def blockText (ctx : Context) (name : String) : String := (freshText? ctx true name).getD ""

/-- A resolved entry has the text of its block, and a new registry has the same for its class. -/
theorem SteadySound.blockText_eq (hs : SteadySound docs c.view r) (he : r.entries[id]? = some e)
    (hres : e.isResolved = true) : blockText (c.context docs) e.requested = e.text := by
  rw [blockText, hs.freshText?_eq he hres, Option.getD_some]

/-- A document is the texts of the entries that it writes down, one for each class in scope, and a
new registry of either kind has the same text for the class. -/
theorem document_blocks (hs : SteadySound docs c.view r) (scope : Scope) (names : List String)
    {text : String} (h : document (c.context docs) scope names r = some (.ok text, s)) :
    (∃ ids, s.rendered.toList = r.rendered.toList ++ ids ∧
      List.Forall₂ (fun name => s.HasText name (blockText (c.context docs) name))
        (names.filter scope.contains) ids) ∧
      (∀ name ∈ names.filter scope.contains, ∀ fresh,
        freshText? (c.context docs) fresh name = some (blockText (c.context docs) name)) ∧
      text = String.join
        ((names.filter scope.contains).map (blockText (c.context docs) · ++ "\n")) := by
  have hs' : SteadySound docs c.view s :=
    (document_steps scope names hs.toSound h).1.steadySound (c.bounded docs).steady hs
  obtain ⟨ids, hrendered, hprov, htext⟩ := document_written scope names hs.toSound h
  refine ⟨⟨ids, hrendered, hprov.flip.imp ?_⟩, fun name hname fresh => ?_, ?_⟩
  · rintro name id ⟨e, he, rfl, hres⟩
    exact ⟨e, he, rfl, stateOf_eq_resolved_iff.mpr hres, (hs'.blockText_eq he hres).symm⟩
  · obtain ⟨id, -, e, he, rfl, hres⟩ := exists_partner hprov.flip hname
    rw [hs'.freshText?_eq he hres, hs'.blockText_eq he hres]
  · have hmap : List.Forall₂ (· = ·) (ids.map (s.textOf · ++ "\n"))
        ((names.filter scope.contains).map (blockText (c.context docs) · ++ "\n")) := by
      rw [List.forall₂_map_left_iff, List.forall₂_map_right_iff]
      refine hprov.imp ?_
      rintro id name ⟨e, he, rfl, hres⟩
      rw [hs'.blockText_eq he hres, textOf, he, Option.map_some, Option.getD_some]
    rw [List.forall₂_eq_eq_eq] at hmap
    rw [htext, hmap]

end Codebase

/-- **A document is a concatenation of independent blocks**: whatever operations came before, a list
of classes is written down as the classes in scope of it are; this succeeds exactly if each of them
can be had, and then the document is the texts of their resolved entries in list order, which are
the texts that a new registry of either kind has for them; otherwise it fails as the request for the
first of them that cannot be had. After a success more names in the list are more documents in a
row, and a permutation of the list gives the same blocks in the order of the permutation. -/
theorem document_concatenates (c : Codebase) (docs : DocReader) (shared : Bool) (ops : List Op)
    (scope : Scope) (xs : List String) :
    ∃ answers r res s, play (c.context docs) ops { shared } = some (answers, r) ∧
      document (c.context docs) scope xs r = some (res, s) ∧
      document (c.context docs) scope (xs.filter scope.contains) r = some (res, s) ∧
      ((∃ text, res = .ok text) ↔ ∀ name ∈ xs.filter scope.contains,
        ∃ id t, r.request (c.context docs) name = some (.ok id, t)) ∧
      (∀ error, res = .error error → ∃ before name after t,
        xs.filter scope.contains = before ++ name :: after ∧
        (∀ n ∈ before, ∃ id t, r.request (c.context docs) n = some (.ok id, t)) ∧
        r.request (c.context docs) name = some (.error error, t)) ∧
      ∀ text, res = .ok text →
        (∃ block : String → String,
          (∃ ids, s.rendered.toList = r.rendered.toList ++ ids ∧
            List.Forall₂ (fun name => s.HasText name (block name))
              (xs.filter scope.contains) ids) ∧
          (∀ name ∈ xs.filter scope.contains, ∀ fresh,
            freshText? (c.context docs) fresh name = some (block name)) ∧
          text = String.join ((xs.filter scope.contains).map (block · ++ "\n")) ∧
          ∀ zs, zs.Perm xs → ∃ t, document (c.context docs) scope zs r =
            some (.ok (String.join ((zs.filter scope.contains).map (block · ++ "\n"))), t)) ∧
        ∀ ys, document (c.context docs) scope (xs ++ ys) r =
          (document (c.context docs) scope ys s).andThen fun rest t =>
            some (.ok (text ++ rest), t) := by
  have hb := c.bounded docs
  have hnew : SteadySound docs c.view { shared } := steadySound_of_empty rfl rfl rfl
  obtain ⟨answers, r, hplay⟩ := exists_play_eq_some hb ops hnew
  have hreach : Reachable (c.context docs) shared r := ⟨ops, answers, hplay⟩
  have hs : SteadySound docs c.view r := hreach.steadySound hb
  have hidle := hreach.stack_eq_nil
  have hends : ∀ names, ∃ res s, document (c.context docs) scope names r = some (res, s) ∧
      failure? res = (names.filter scope.contains).findSome? (c.firstDefect []) := by
    intro names
    obtain ⟨⟨res, s⟩, hdoc⟩ := Option.isSome_iff_exists.mp (document_isSome hb scope names hs)
    exact ⟨res, s, hdoc, document_failure? scope names hs hidle hdoc⟩
  obtain ⟨res, s, hdoc, hfail⟩ := hends xs
  refine ⟨answers, r, res, s, hplay, hdoc, (document_filter ..).trans hdoc, ?_, ?_, ?_⟩
  · rw [← failure?_eq_none_iff, hfail, List.findSome?_eq_none_iff]
    simp only [exists_request_ok_iff hs hidle]
  · rintro error rfl
    obtain ⟨before, name, after, hcut, hname, hbefore⟩ := List.findSome?_eq_some_iff.mp hfail.symm
    obtain ⟨t, hreq⟩ := (exists_request_error_iff hs hidle).mpr hname
    exact ⟨before, name, after, t, hcut,
      fun n hn => (exists_request_ok_iff hs hidle).mpr (hbefore n hn), hreq⟩
  · rintro text rfl
    obtain ⟨hshown, hblocks, htext⟩ := document_blocks hs scope xs hdoc
    refine ⟨⟨blockText (c.context docs), hshown, hblocks, htext, fun zs hperm => ?_⟩, fun ys => ?_⟩
    · -- the permuted list has the same classes in scope, so none of them fails
      obtain ⟨res', t, hdoc', hfail'⟩ := hends zs
      have hnone : failure? res' = none := by
        rw [hfail', List.findSome?_eq_none_iff]
        have hall := List.findSome?_eq_none_iff.mp hfail.symm
        exact fun n hn => hall n ((hperm.filter _).mem_iff.mp hn)
      obtain ⟨text', rfl⟩ := failure?_eq_none_iff.mp hnone
      obtain ⟨-, -, rfl⟩ := document_blocks hs scope zs hdoc'
      exact ⟨t, hdoc'⟩
    · rw [document_append, hdoc, Outcome.andThen_ok]

open Project in
/-- The shelf and its store after the shelf has been requested, with a class between them that is
out of scope: two blocks, each the text of its entry, and the other way round if the list is
turned. -/
theorem document_concatenates_shelf : ∃ answers r s t, ∃ block : String → String,
    play (shelf.context DocBlock.reader) [.request "Shelf"] { shared := true } = some (answers, r) ∧
    block "Store" = "Store\n??? public load()\nint public save()\n" ∧
    block "Shelf" = "Shelf extends Store\nvoid add($x)\nint size()\n??? public open()\n" ++
      "int public save()\n" ∧
    document (shelf.context DocBlock.reader) { included := ["S"] } ["Store", "Attic", "Shelf"] r =
      some (.ok (String.join [block "Store" ++ "\n", block "Shelf" ++ "\n"]), s) ∧
    r.rendered.toList = [] ∧ s.rendered.toList = [1, 0] ∧
    List.Forall₂ (fun name => s.HasText name (block name)) ["Store", "Shelf"] [1, 0] ∧
    document (shelf.context DocBlock.reader) { included := ["S"] } ["Shelf", "Attic", "Store"] r =
      some (.ok (String.join [block "Shelf" ++ "\n", block "Store" ++ "\n"]), t) := by
  have hrun : (play (shelf.context DocBlock.reader) [.request "Shelf"] { shared := true }).bind
      (fun p => (document (shelf.context DocBlock.reader) { included := ["S"] }
        ["Store", "Attic", "Shelf"] p.2).map fun q =>
          (p.2.rendered.toList, q.1.toOption.isSome, q.2.rendered.toList)) =
      some ([], true, [1, 0]) := by
    decide +kernel
  have hstore : freshText? (shelf.context DocBlock.reader) true "Store" =
      some "Store\n??? public load()\nint public save()\n" := by
    decide +kernel
  have hshelf : freshText? (shelf.context DocBlock.reader) true "Shelf" =
      some ("Shelf extends Store\nvoid add($x)\nint size()\n??? public open()\n" ++
        "int public save()\n") := by
    decide +kernel
  have hscope : ["Store", "Attic", "Shelf"].filter (Scope.contains { included := ["S"] }) =
      ["Store", "Shelf"] := by
    decide +kernel
  have hscope' : ["Shelf", "Attic", "Store"].filter (Scope.contains { included := ["S"] }) =
      ["Shelf", "Store"] := by
    decide +kernel
  obtain ⟨answers, r, res, s, hplay, hdoc, -, -, -, hok⟩ := document_concatenates shelf
    DocBlock.reader true [.request "Shelf"] { included := ["S"] } ["Store", "Attic", "Shelf"]
  rw [hplay, Option.bind_some, hdoc, Option.map_some] at hrun
  simp only [Option.some.injEq, Prod.mk.injEq] at hrun
  obtain ⟨hnone, hsome, hrendered⟩ := hrun
  cases res with
  | error error => cases hsome
  | ok text =>
    obtain ⟨⟨block, ⟨ids, hids, hshown⟩, hfresh, htext, hperm⟩, -⟩ := hok text rfl
    obtain ⟨t, hturned⟩ := hperm ["Shelf", "Attic", "Store"] (by decide)
    rw [hscope] at hshown hfresh htext
    rw [hscope'] at hturned
    rw [hnone, List.nil_append, hrendered] at hids
    subst hids htext
    have hblock := fun name hname => hfresh name hname true
    have hblockStore := Option.some.inj ((hblock "Store" (by simp)).symm.trans hstore)
    have hblockShelf := Option.some.inj ((hblock "Shelf" (by simp)).symm.trans hshelf)
    exact ⟨answers, r, s, t, block, hplay, hblockStore, hblockShelf, hdoc, hnone, hrendered, hshown,
      hturned⟩

end Registry

end ClassSurface
