import ClassSurface.DocBlock.Reader
import ClassSurface.Proofs.Project.Sharing
import ClassSurface.Proofs.Registry.Inheritance
import ClassSurface.Proofs.Registry.WorkCounts

/-! # Proofs.Project.Blocks — a document is made of one block for each class in scope

What a document shows of a class is a block: its header, a line for each documented method, a line
for each method that it declares itself. `Block.Describes` says which methods these are, in terms of
the declaration alone.

* `SteadySound.shows`: the text of a resolved entry is a block that describes its class.
* `document_written`: a document is the texts of the classes in scope, in list order.
* `document_is_blocks`: so no method is lost or written twice, and the counts are those of the
  lines.
-/

namespace ClassSurface

/-! ### Blocks -/

/-- What a document shows of a class: methods by name, each with its line. -/
structure Block where
  header : String
  documented : List (String × String)
  own : List (String × String)

def Block.text (b : Block) : String :=
  String.join ((b.header :: (b.documented ++ b.own).map (·.2)).map (· ++ "\n"))

/-- The first line of a class. -/
def ClassDecl.header (d : ClassDecl) : String :=
  d.name ++ (d.parent.map (" extends " ++ ·)).getD "" ++
    if d.interfaces = [] then "" else " implements " ++ ", ".intercalate d.interfaces

/-- The block is what `d` declares: after the header one line for each method that the annotations
of the class name, the last one giving the text, and one line for each method of `d`, made from the
first entry of its name. Both kinds stand in strictly ascending order of their names. `inherited`
gives the return types that methods have further up. -/
structure Block.Describes (docs : DocReader) (inherited : String → Option String) (d : ClassDecl)
    (b : Block) : Prop where
  header : b.header = d.header
  documented_ascending : (b.documented.map (·.1)).Pairwise (· < ·)
  documented : ∀ name line, (name, line) ∈ b.documented ↔
    ∃ before after, usableAnnotations docs d.docComment = before ++ .method name line :: after ∧
      ∀ other, .method name other ∉ after
  own_ascending : (b.own.map (·.1)).Pairwise (· < ·)
  own : ∀ name line, (name, line) ∈ b.own ↔
    ∃ m, d.methods.find? (·.name = name) = some m ∧
      line = (mergeMethod docs 0 m (inherited name)).text (d.kind == .interface)

def Outline.method? (o : Outline) (name : String) : Option Signature :=
  (o.methods.find? (·.1 = name)).map (·.2)

/-- The return type that `method` has in the first ancestor of `name` that has it. -/
def Codebase.inheritedReturn? (c : Codebase) (docs : DocReader) (name method : String) :
    Option String :=
  ((c.ancestorsOf name).findSome? fun a => (c.outline? docs a).bind (·.method? method)).map
    (·.returnType)

/-- The block is what the codebase declares under `name`; methods that are visible on the class and
declared elsewhere are not among its own. -/
def Codebase.Shows (c : Codebase) (docs : DocReader) (name : String) (b : Block) : Prop :=
  ∃ d, c.find? name = some d ∧ b.Describes docs (c.inheritedReturn? docs name) d ∧
    ∀ m ∈ c.visibleMethods name, m.declaringClass ≠ name → m.name ∉ b.own.map (·.1)

/-! ### The block of an entry -/

namespace Entry

def block (e : Entry) : Block where
  header := e.header
  documented := e.dynamicMethods.toList
  own := (e.methods.toList.filter (·.2.declaringClass = e.name)).map fun p =>
    (p.1, p.2.text e.view.isInterface)

theorem ownMethods_eq (e : Entry) :
    e.ownMethods = (e.methods.toList.filter (·.2.declaringClass = e.name)).map (·.2) := by
  rw [ownMethods, values_eq_map_toList, List.filter_map]
  rfl

theorem text_block (e : Entry) : e.block.text = e.text := by
  rw [Block.text, text, lines, ownMethods_eq, values_eq_map_toList, List.map_append, block,
    List.map_map, List.map_map]
  rfl

theorem length_own_block (e : Entry) : e.block.own.length = e.ownMethods.length := by
  rw [ownMethods_eq, List.length_map, block, List.length_map]

theorem length_documented_block (e : Entry) :
    e.block.documented.length = e.dynamicMethods.size := Std.TreeMap.length_toList

end Entry

/-- The names of a table are listed in ascending order. -/
theorem pairwise_toList {β : Type} (t : Std.TreeMap String β) :
    t.toList.Pairwise fun p q => p.1 < q.1 := by
  refine (Std.TreeMap.ordered_keys_toList (t := t)).imp fun h => ?_
  exact compareOfLessAndEq_eq_lt.mp h

theorem Entry.pairwise_documented (e : Entry) :
    (e.block.documented.map (·.1)).Pairwise (· < ·) :=
  List.pairwise_map.mpr (pairwise_toList _)

theorem Entry.pairwise_own (e : Entry) : (e.block.own.map (·.1)).Pairwise (· < ·) := by
  rw [block, List.map_map]
  exact List.pairwise_map.mpr ((pairwise_toList _).sublist List.filter_sublist)

theorem Entry.mem_documented {e : Entry} {name line : String} :
    (name, line) ∈ e.block.documented ↔ e.dynamicMethods[name]? = some line :=
  Std.TreeMap.mem_toList_iff_getElem?_eq_some

theorem Entry.mem_own {e : Entry} {name line : String} :
    (name, line) ∈ e.block.own ↔ ∃ sig, e.method? name = some sig ∧ sig.declaringClass = e.name ∧
      line = sig.text e.view.isInterface := by
  simp only [block, List.mem_map, List.mem_filter, decide_eq_true_eq, Prod.exists, Prod.mk.injEq,
    Std.TreeMap.mem_toList_iff_getElem?_eq_some]
  constructor
  · rintro ⟨_, sig, ⟨hsig, hdecl⟩, rfl, rfl⟩
    exact ⟨sig, hsig, hdecl, rfl⟩
  · rintro ⟨sig, hsig, hdecl, rfl⟩
    exact ⟨name, sig, ⟨hsig, hdecl⟩, rfl, rfl⟩

/-! ### What an entry says of its class -/

/-- A documented method is given by the last annotation of its name. -/
theorem getElem?_ofList_method? {notes : List Annotation} {name line : String} :
    (Std.TreeMap.ofList (notes.filterMap Annotation.method?))[name]? = some line ↔
      ∃ before after, notes = before ++ .method name line :: after ∧
        ∀ other, .method name other ∉ after := by
  have hnamed : ∀ note : Annotation, note.method?.any (·.1 = name) = true ↔
      ∃ line, note = .method name line := by
    intro note
    cases note <;> simp [ Annotation.method?]
  -- the last annotation of the name is the first one from the end
  rw [Registry.getElem?_ofList, ← List.filterMap_reverse, List.find?_filterMap, Option.map_bind,
    Option.bind_eq_some_iff]
  constructor
  · rintro ⟨note, hfind, hline⟩
    obtain ⟨hnote, after, before, hnotes, hafter⟩ := List.find?_eq_some_iff_append.mp hfind
    obtain ⟨line', rfl⟩ := (hnamed note).mp hnote
    cases hline
    refine ⟨before.reverse, after.reverse, ?_, fun other hother => ?_⟩
    · rw [← notes.reverse_reverse, hnotes]
      simp
    · have hnot := hafter _ (List.mem_reverse.mp hother)
      rw [(hnamed _).mpr ⟨other, rfl⟩] at hnot
      cases hnot
  · rintro ⟨before, after, rfl, hafter⟩
    refine ⟨.method name line, List.find?_eq_some_iff_append.mpr ⟨(hnamed _).mpr ⟨line, rfl⟩,
      after.reverse, before.reverse, by simp, fun note hnote => ?_⟩, rfl⟩
    rw [Bool.not_eq_true', ← Bool.not_eq_true, hnamed]
    rintro ⟨other, rfl⟩
    exact hafter other (List.mem_reverse.mp hnote)

theorem map_find?_toList {β : Type} (t : Std.TreeMap String β) (k : String) :
    (t.toList.find? (·.1 = k)).map (·.2) = t[k]? := by
  cases h : t.toList.find? (·.1 = k) with
  | none =>
    have hnone := List.find?_eq_none.mp h
    refine (Option.eq_none_iff_forall_ne_some.mpr fun b hb => ?_).symm
    exact hnone (k, b) (Std.TreeMap.mem_toList_iff_getElem?_eq_some.mpr hb) (by simp)
  | some p =>
    obtain ⟨k', b⟩ := p
    have hk : k' = k := by simpa using List.find?_some h
    subst hk
    exact (Std.TreeMap.mem_toList_iff_getElem?_eq_some.mp (List.mem_of_find?_eq_some h)).symm

theorem Entry.outline_method? (e : Entry) (name : String) :
    e.outline.method? name = (e.method? name).map Signature.unowned := by
  rw [Outline.method?, outline, List.find?_map, Option.map_map, Entry.method?,
    ← map_find?_toList, Option.map_map]
  rfl

namespace Registry

variable {c : Codebase} {docs : DocReader} {r : Registry} {id : ClassId} {e : Entry}

/-- What a resolved entry inherits is found in the outlines of its ancestors. -/
theorem SteadySound.inheritedReturn_eq (hs : SteadySound docs c.view r)
    (he : r.entries[id]? = some e) (hres : e.isResolved = true) (m : String) :
    r.inheritedReturn e.ancestors m = c.inheritedReturn? docs e.requested m := by
  obtain ⟨d, hfind, -, hanc⟩ := Codebase.view_eq_ok (hs.faithful he)
  rw [inheritedReturn, Codebase.inheritedReturn?, Codebase.ancestorsOf_of_find? hfind, ← hanc]
  refine map_findSome?_eq ((hs.provides_ancestors he hres).imp fun a n hprov => ?_)
  obtain ⟨ea, hea, rfl, hresa⟩ := hprov
  rw [method?, hea, hs.outline_eq hea hresa, Option.bind_some, Option.bind_some,
    Entry.outline_method?, Option.map_map]
  rfl

/-- The own methods of a resolved entry are those of the declaration, the first of each name. -/
theorem SteadySound.mem_own_iff (hs : SteadySound docs c.view r) (he : r.entries[id]? = some e)
    (hres : e.isResolved = true) {d : ClassDecl} (hd : c.find? e.requested = some d)
    {name line : String} :
    (name, line) ∈ e.block.own ↔ ∃ m, d.methods.find? (·.name = name) = some m ∧
      line = (mergeMethod docs 0 m (c.inheritedReturn? docs e.requested name)).text
        e.view.isInterface := by
  have hmethod := hs.method?_eq_visible? he hres name
  rw [hs.inheritedReturn_eq he hres] at hmethod
  rw [Entry.mem_own, hmethod, name_eq_requested hs.faithful he]
  constructor
  · rintro ⟨sig, hsig, hdecl, rfl⟩
    obtain ⟨md, hmd, rfl⟩ := Option.map_eq_some_iff.mp hsig
    obtain ⟨m, hm, rfl⟩ := (Codebase.visible?_and_declared_iff hd).mp ⟨hmd, hdecl⟩
    exact ⟨m, hm, rfl⟩
  · rintro ⟨m, hm, rfl⟩
    obtain ⟨hmd, hdecl⟩ := (Codebase.visible?_and_declared_iff hd).mpr ⟨m, hm, rfl⟩
    exact ⟨_, Option.map_eq_some_iff.mpr ⟨_, hmd, rfl⟩, hdecl, rfl⟩

/-- The text of a resolved entry is a block that describes its class. -/
theorem SteadySound.shows (hs : SteadySound docs c.view r) (he : r.entries[id]? = some e)
    (hres : e.isResolved = true) : c.Shows docs e.requested e.block := by
  obtain ⟨d, hd, hview⟩ := Codebase.exists_of_view_eq_ok (hs.faithful he)
  refine ⟨d, hd, ⟨?_, e.pairwise_documented, fun name line => ?_, e.pairwise_own,
    fun name line => ?_⟩, fun m hm hdecl hown => ?_⟩
  · show e.header = _
    rw [Entry.header, hview, ClassDecl.header]
    cases d.parent <;> rfl
  · rw [Entry.mem_documented, Entry.dynamicMethods, hs.surface_eq he hres,
      ← getElem?_ofList_method?, hview]
    rfl
  · rw [hs.mem_own_iff he hres hd, ClassView.isInterface, hview]
  · obtain ⟨⟨_, line⟩, hmem, rfl⟩ := List.mem_map.mp hown
    obtain ⟨first, hfirst, -⟩ := (hs.mem_own_iff he hres hd).mp hmem
    obtain ⟨hvisible, hdeclared⟩ := (Codebase.visible?_and_declared_iff hd).mpr ⟨first, hfirst, rfl⟩
    -- no name is visible twice, so the inherited method would be the class's own
    rw [Codebase.visible?_of_mem hm] at hvisible
    cases hvisible
    exact hdecl hdeclared

/-! ### Documents -/

variable {ctx : Context} {s : Registry}

/-- A document writes down the classes of its list that are in scope, one after the other. -/
theorem document_written (scope : Scope) :
    ∀ (names : List String) {r s : Registry} {text : String}, Sound ctx.docs r →
      document ctx scope names r = some (.ok text, s) →
      ∃ ids, s.rendered.toList = r.rendered.toList ++ ids ∧
        List.Forall₂ s.Provides ids (names.filter scope.contains) ∧
        text = String.join (ids.map (s.textOf · ++ "\n"))
  | [], r, s, text, _, h => by
    cases h
    exact ⟨[], by simp, .nil, rfl⟩
  | name :: names, r, s, text, hs, h => by
    rw [document] at h
    split at h
    · rename_i hscope
      rw [List.filter_cons_of_pos hscope]
      rcases Outcome.andThen_eq_some h with ⟨error, -, herror⟩ | ⟨id, t, hreq, h⟩
      · cases herror
      · rcases Outcome.andThen_eq_some h with ⟨error, -, herror⟩ | ⟨rest, u, hrest, h⟩
        · cases herror
        · cases h
          have hrun := request_excursion hs hreq
          have ht := hrun.steps.sound hs
          obtain ⟨e, he, hname, hres⟩ := provides_of_request hs hreq
          have hmarked : Sound ctx.docs (t.markRendered id) := (Step.render id e he hres).sound ht
          obtain ⟨ids, hids, hprov, rfl⟩ := document_written scope names hmarked hrest
          -- the entry is resolved, so what follows leaves it as it is
          have hgrows := (document_steps scope names hmarked hrest).1.grows hmarked
          have hkept : s.entries[id]? = some e := hgrows.getElem?_of_resolved he hres
          refine ⟨id :: ids, ?_, .cons ⟨e, hkept, hname, hres⟩ hprov, ?_⟩
          · rw [hids, markRendered, hrun.rendered]
            simp
          · rw [List.map_cons, String.join_cons, textOf, textOf, he, hkept]
    · rename_i hscope
      rw [List.filter_cons_of_neg hscope]
      exact document_written scope names hs h

/-- The entries of numbers that provide classes, one for each class. -/
theorem exists_entries_of_provides {ids : List ClassId} {names : List String}
    (h : List.Forall₂ s.Provides ids names) :
    ∃ shown : List Entry,
      (ids.filterMap fun id => s.entries[id]?.map (id, ·)).map (·.2) = shown ∧
      List.Forall₂ (fun name e => ∃ id : ClassId, s.entries[id]? = some e ∧ e.isResolved = true ∧
        e.requested = name) names shown ∧
      ids.map s.textOf = shown.map Entry.text := by
  induction h with
  | nil => exact ⟨[], rfl, .nil, rfl⟩
  | @cons id name ids names hprov _ ih =>
    obtain ⟨e, he, hname, hres⟩ := hprov
    obtain ⟨shown, hshown, hall, htexts⟩ := ih
    refine ⟨e :: shown, ?_, .cons ⟨id, he, hres, hname⟩ hall, ?_⟩
    · rw [List.filterMap_cons, he, Option.map_some, List.map_cons, hshown]
    · rw [List.map_cons, List.map_cons, htexts, textOf, he]
      rfl

end Registry

theorem Stats.total_eq_sum {α : Type} (count : α → Nat) (l : List α) :
    total count l = (l.map count).sum := by
  induction l with
  | nil => rfl
  | cons a l ih => rw [total, List.map_cons, List.sum_cons, ih]

namespace Project

open Registry

/-- **No method is lost or written twice**: the document of a run that succeeds is made of one block
for each class of the list that is in scope, in list order and repetitions included; each block is
what the codebase declares under the name of its class; and the counts are those of the blocks and
of their lines. -/
theorem document_is_blocks (c : Codebase) (docs : DocReader) (settings : Settings)
    (classes : List String) (report : Report) (log : List Event)
    (h : run settings (.ok classes) (c.context docs) = some (.ok report, log)) :
    ∃ blocks : List Block,
      List.Forall₂ (c.Shows docs) (classes.filter settings.scope.contains) blocks ∧
      report.document = String.join (blocks.map (·.text ++ "\n")) ∧
      report.stats.inScopeClasses = (classes.filter settings.scope.contains).length ∧
      report.stats.methods = (blocks.map (·.own.length)).sum ∧
      report.stats.dynamicMethods = (blocks.map (·.documented.length)).sum := by
  obtain ⟨s, hdoc, hstats⟩ := document_of_run h
  have hnew : SteadySound docs c.view (newRegistry settings classes) :=
    steadySound_of_empty rfl rfl rfl
  have hs : SteadySound docs c.view s :=
    (document_steps _ _ hnew.toSound hdoc).1.steadySound (c.bounded docs).steady hnew
  obtain ⟨ids, hids, hprov, htext⟩ := document_written _ _ hnew.toSound hdoc
  obtain ⟨shown, hshown, hall, htexts⟩ := exists_entries_of_provides hprov
  have hentries : s.renderedEntries.map (·.2) = shown := by
    rw [renderedEntries, hids]
    exact hshown
  have hblocks : List.Forall₂ (c.Shows docs) (classes.filter settings.scope.contains)
      (shown.map Entry.block) := by
    refine List.forall₂_map_right_iff.mpr (hall.imp fun name e he => ?_)
    obtain ⟨id, he, hres, rfl⟩ := he
    exact hs.shows he hres
  refine ⟨shown.map Entry.block, hblocks, ?_, ?_, ?_, ?_⟩
  · have hjoin : ids.map (s.textOf · ++ "\n") = (ids.map s.textOf).map (· ++ "\n") := by
      rw [List.map_map]
      rfl
    rw [htext, hjoin, htexts, List.map_map, List.map_map]
    simp only [Function.comp_def, Entry.text_block]
  · rw [hstats, Stats.collect, hentries, hall.length_eq]
  · rw [hstats, Stats.collect, hentries, List.map_map]
    simp only [Stats.total_eq_sum, Function.comp_def, Entry.length_own_block]
  · rw [hstats, Stats.collect, hentries, List.map_map]
    simp only [Stats.total_eq_sum, Function.comp_def, Entry.length_documented_block]

/-- A class with an inherited method, one declared twice and one documented twice. -/
def shelf : Codebase := .ofList
  [{ name := "Store", methods :=
      [{ name := "load" }, { name := "save", returnType := some "int" }] },
    { name := "Shelf", parent := some "Store"
      docComment := some "/**\n * @method size()\n * @method int size()\n * @method add($x)\n */"
      methods := [{ name := "save" }, { name := "open" }, { name := "save", isStatic := true }] }]

/-- The class is listed twice, and its parent is out of scope. -/
theorem document_is_blocks_shelf : ∃ report log blocks,
    run { included := ["Sh"] } (.ok ["Shelf", "Store", "Shelf"]) (shelf.context DocBlock.reader) =
      some (.ok report, log) ∧
    report.document = String.join (List.replicate 2 ("Shelf extends Store\n" ++
      "void add($x)\nint size()\n??? public open()\nint public save()\n\n")) ∧
    List.Forall₂ (shelf.Shows DocBlock.reader) ["Shelf", "Shelf"] blocks ∧
    report.document = String.join (blocks.map (·.text ++ "\n")) ∧
    report.stats.inScopeClasses = 2 ∧ (blocks.map (·.own.length)).sum = 4 ∧
    (blocks.map (·.documented.length)).sum = 4 := by
  have hrun : (run { included := ["Sh"] } (.ok ["Shelf", "Store", "Shelf"])
      (shelf.context DocBlock.reader)).bind (fun p => p.1.toOption.map fun report =>
        (report.document, report.stats.methods, report.stats.dynamicMethods)) =
      some (String.join (List.replicate 2 ("Shelf extends Store\n" ++
        "void add($x)\nint size()\n??? public open()\nint public save()\n\n")), 4, 4) := by
    decide +kernel
  have hscope : ["Shelf", "Store", "Shelf"].filter
      (Settings.scope { included := ["Sh"] }).contains = ["Shelf", "Shelf"] := by
    decide +kernel
  obtain ⟨⟨res, log⟩, hrun, hres⟩ := Option.bind_eq_some_iff.mp hrun
  cases res with
  | error cause => cases hres
  | ok report =>
    obtain ⟨hdoc, hcounts⟩ := Prod.mk.inj (Option.some.inj hres)
    obtain ⟨hown, hdocumented⟩ := Prod.mk.inj hcounts
    obtain ⟨blocks, hblocks, htext, hclasses, hmethods, hdynamic⟩ :=
      document_is_blocks shelf DocBlock.reader { included := ["Sh"] } _ report log hrun
    rw [hscope] at hblocks hclasses
    exact ⟨report, log, blocks, hrun, hdoc, hblocks, htext, hclasses, hmethods.symm.trans hown,
      hdynamic.symm.trans hdocumented⟩

end Project

end ClassSurface
