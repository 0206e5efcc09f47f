import ClassSurface.Proofs.Project.Concatenation
import ClassSurface.Proofs.Registry.Texts

/-! # Proofs.Project.ReadBack — a document is read back block by block

A document has no other marks than line feeds: one after each line, and one more after each block.
If the declared texts are in one line each, then so is everything that is written, documentation and
inherited return types included, and blank lines stand between blocks only.

* `Block.Describes.linewise`: the lines of a class are neither empty nor broken.
* `SteadySound.oneLine_inheritedReturn`: nor is what is inherited, ancestors first.
* `document_unambiguous`: so the blocks of a document are its paragraphs, and its line feeds are
  counted by the numbers of classes and methods.
-/

namespace ClassSurface

open Text

/-! ### Lines -/

/-- The declared texts are in one line each; documentation need not be. -/
def Codebase.Linewise (c : Codebase) : Prop := ∀ d ∈ c.declarations, ∀ t ∈ d.texts, OneLine t

instance (c : Codebase) : Decidable c.Linewise :=
  inferInstanceAs (Decidable (∀ d ∈ c.declarations, ∀ t ∈ d.texts, OneLine t))

theorem ClassDecl.oneLine_header {d : ClassDecl} (h : ∀ t ∈ d.texts, OneLine t) :
    OneLine d.header := by
  simp only [texts, List.cons_append, List.forall_mem_cons, List.forall_mem_append] at h
  obtain ⟨hname, ⟨hparent, hinterfaces⟩, -⟩ := h
  have hextends : OneLine ((d.parent.map (" extends " ++ ·)).getD "") := by
    refine oneLine_getD (fun t ht => ?_) (by decide)
    obtain ⟨parent, hp, rfl⟩ := Option.map_eq_some_iff.mp ht
    exact oneLine_append.mpr ⟨by decide, hparent parent (Option.mem_toList.mpr hp)⟩
  have himplements : OneLine
      (if d.interfaces = [] then "" else " implements " ++ ", ".intercalate d.interfaces) := by
    split
    · decide
    · exact oneLine_append.mpr ⟨by decide, oneLine_intercalate (by decide) hinterfaces⟩
  rw [header, oneLine_append, oneLine_append]
  exact ⟨⟨hname, hextends⟩, himplements⟩

theorem ClassDecl.oneLine_texts_of_mem {d : ClassDecl} (h : ∀ t ∈ d.texts, OneLine t)
    {m : MethodDecl} (hm : m ∈ d.methods) : ∀ t ∈ m.texts, OneLine t := fun t ht =>
  h t (List.mem_append_right _ (List.mem_flatMap.mpr ⟨m, hm, ht⟩))

def Block.lines (b : Block) : List String := b.header :: (b.documented ++ b.own).map (·.2)

theorem Entry.text_eq (e : Entry) : e.text = terminated e.block.lines := e.text_block.symm

/-- A class has a line feed for itself and one for each method that it shows. -/
theorem Entry.count_feed_text {e : Entry} (h : ∀ l ∈ e.block.lines, OneLine l) :
    e.text.toList.count '\n' = 1 + e.dynamicMethods.size + e.ownMethods.length := by
  rw [text_eq, count_feed_terminated_lines h, Block.lines, List.length_cons, List.length_map,
    List.length_append, length_documented_block, length_own_block]
  omega

/-- The lines of a class are neither empty nor broken. -/
theorem Block.Describes.linewise {docs : DocReader} {inherited : String → Option String}
    {d : ClassDecl} {b : Block} (h : b.Describes docs inherited d) (hdocs : docs.Linewise)
    (hd : ∀ t ∈ d.texts, OneLine t) (hname : d.name ≠ "")
    (hinherited : ∀ m, ∀ t ∈ inherited m, OneLine t) : ∀ l ∈ b.lines, OneLine l ∧ l ≠ "" := by
  rw [lines, List.forall_mem_cons, List.map_append, List.forall_mem_append]
  refine ⟨?_, ?_, ?_⟩
  · rw [h.header]
    refine ⟨d.oneLine_header hd, fun hempty => hname ?_⟩
    rw [ClassDecl.header] at hempty
    exact (String.append_eq_empty_iff.mp (String.append_eq_empty_iff.mp hempty).1).1
  · refine List.forall_mem_map.mpr fun p hp => ?_
    obtain ⟨name, line⟩ := p
    obtain ⟨before, after, hnotes, -⟩ := (h.documented name line).mp hp
    have hnote : Annotation.method name line ∈ usableAnnotations docs d.docComment := by
      simp [hnotes]
    obtain ⟨htexts, hshown⟩ := hdocs _ _ hnote
    exact ⟨htexts line (by simp [ Annotation.texts]), fun hempty => hshown name (hempty ▸ rfl)⟩
  · refine List.forall_mem_map.mpr fun p hp => ?_
    obtain ⟨name, line⟩ := p
    obtain ⟨m, hfind, rfl⟩ := (h.own name line).mp hp
    have hm := d.oneLine_texts_of_mem hd (List.mem_of_find?_eq_some hfind)
    exact ⟨Signature.oneLine_text (oneLine_texts_mergeMethod hdocs hm (hinherited name) 0) _,
      Signature.text_ne_empty _ _⟩

/-! ### What is inherited -/

theorem Codebase.Linewise.texts_of_visible? {c : Codebase} (hc : c.Linewise) {m n : String}
    {md : MethodDecl} (h : c.visible? m n = some md) : ∀ t ∈ md.texts, OneLine t := by
  obtain ⟨z, -, hown⟩ := List.mem_flatMap.mp
    (mem_of_mem_firstOfEachName (List.mem_of_find?_eq_some h))
  rw [ownMethods] at hown
  split at hown
  · cases hown
  · rename_i d hd
    obtain ⟨declared, hdeclared, rfl⟩ := List.mem_map.mp hown
    exact d.oneLine_texts_of_mem (m := declared) (hc d (List.mem_of_find?_eq_some hd)) hdeclared

namespace Registry

variable {c : Codebase} {docs : DocReader} {r : Registry} {id : ClassId} {e : Entry}

/-- A return type that is inherited is in one line. -/
theorem SteadySound.oneLine_inheritedReturn (hs : SteadySound docs c.view r) (hc : c.Linewise)
    (hdocs : docs.Linewise) (he : r.entries[id]? = some e) (hres : e.isResolved = true)
    (m : String) : ∀ t ∈ r.inheritedReturn e.ancestors m, OneLine t := by
  obtain ⟨rank, hrank⟩ := hs.ranked
  -- ancestors first, in the order of the ranks
  induction hk : rank id using Nat.strongRecOn generalizing id e with
  | _ k ih =>
    intro t ht
    obtain ⟨sig, hfirst, rfl⟩ := Option.map_eq_some_iff.mp ht
    obtain ⟨a, ha, hsig⟩ := List.exists_of_findSome?_eq_some hfirst
    have hp := (List.forall₂_and_left _ _).mpr ⟨hrank he, hs.provides_ancestors he hres⟩
    obtain ⟨n, -, hlt, ea, hea, -, hresa⟩ := exists_partner hp ha
    rw [method?, hea, Option.bind_some, hs.method?_eq_visible? hea hresa] at hsig
    obtain ⟨md, hmd, rfl⟩ := Option.map_eq_some_iff.mp hsig
    exact oneLine_texts_mergeMethod hdocs (hc.texts_of_visible? hmd)
      (ih (rank a) (hk ▸ hlt) hea hresa rfl) a _ List.mem_cons_self

/-- The lines of a resolved entry are neither empty nor broken. -/
theorem SteadySound.linewise_block (hs : SteadySound docs c.view r) (hc : c.Linewise)
    (hdocs : docs.Linewise) (he : r.entries[id]? = some e) (hres : e.isResolved = true)
    (hname : e.requested ≠ "") : ∀ l ∈ e.block.lines, OneLine l ∧ l ≠ "" := by
  obtain ⟨d, hd, hdescribes, -⟩ := hs.shows he hres
  refine hdescribes.linewise hdocs (hc d (List.mem_of_find?_eq_some hd)) ?_ fun m => ?_
  · rw [Codebase.name_eq_of_find? hd]
    exact hname
  · rw [← hs.inheritedReturn_eq he hres]
    exact hs.oneLine_inheritedReturn hc hdocs he hres m

end Registry

namespace Project

open Registry

/-- A run that succeeds shows one resolved entry for each class in scope, and counts what they
show. -/
theorem exists_shown_of_run {c : Codebase} {docs : DocReader} {settings : Settings}
    {classes : List String} {report : Report} {log : List Event}
    (h : run settings (.ok classes) (c.context docs) = some (.ok report, log)) :
    ∃ s shown, SteadySound docs c.view s ∧
      List.Forall₂ (fun name e => ∃ id : ClassId, s.entries[id]? = some e ∧ e.isResolved = true ∧
        e.requested = name) (classes.filter settings.scope.contains) shown ∧
      report.document = terminated (shown.map Entry.text) ∧
      report.stats.inScopeClasses = shown.length ∧
      report.stats.methods = (shown.map (·.ownMethods.length)).sum ∧
      report.stats.dynamicMethods = (shown.map (·.dynamicMethods.size)).sum := by
  obtain ⟨s, hdoc, hstats⟩ := document_of_run h
  have hnew : SteadySound docs c.view (newRegistry settings classes) :=
    steadySound_of_empty rfl rfl rfl
  have hs : SteadySound docs c.view s :=
    (document_steps _ _ hnew.toSound hdoc).1.steadySound (c.bounded docs).steady hnew
  obtain ⟨ids, hids, hprov, htext⟩ := document_written _ _ hnew.toSound hdoc
  obtain ⟨shown, hshown, hall, htexts⟩ := exists_entries_of_provides hprov
  have hentries : s.renderedEntries.map (·.2) = shown := by
    rw [renderedEntries, hids]
    exact hshown
  refine ⟨s, shown, hs, hall, ?_, ?_, ?_, ?_⟩
  · rw [htext, ← htexts, terminated, List.map_map]
    rfl
  · rw [hstats, Stats.collect, hentries]
  · simp only [hstats, Stats.collect, hentries, Stats.total_eq_sum]
  · simp only [hstats, Stats.collect, hentries, Stats.total_eq_sum]

/-- **A document is unambiguous**: if the declared texts are in one line each and no class in scope
has an empty name, then cutting the document of a run at every two line feeds in a row gives back
the texts of the classes in scope, in list order and each without its last line feed, and an empty
text at the end; no line of them is empty; and the line feeds of the document are two for each class
and one for each method counted. Documentation may have any number of lines. -/
theorem document_unambiguous (c : Codebase) (settings : Settings) (classes : List String)
    (report : Report) (log : List Event) (hc : c.Linewise)
    (hnames : ∀ name ∈ classes, settings.scope.contains name = true → name ≠ "")
    (h : run settings (.ok classes) (c.context DocBlock.reader) = some (.ok report, log)) :
    ∃ blocks : List String,
      List.Forall₂ (fun name block => ∀ fresh,
        freshText? (c.context DocBlock.reader) fresh name = some (block ++ "\n"))
        (classes.filter settings.scope.contains) blocks ∧
      (paragraphs report.document.toList).map String.ofList = blocks ++ [""] ∧
      (∀ block ∈ blocks, ∀ line ∈ block.toList.splitOn '\n', line ≠ []) ∧
      report.document.toList.count '\n' =
        2 * report.stats.inScopeClasses + report.stats.methods + report.stats.dynamicMethods := by
  obtain ⟨s, shown, hs, hall, hdoc, hclasses, hmethods, hdynamic⟩ := exists_shown_of_run h
  have hne : ∀ e : Entry, e.block.lines ≠ [] := fun e => List.cons_ne_nil _ _
  have hlines : ∀ e ∈ shown, ∀ l ∈ e.block.lines, OneLine l ∧ l ≠ "" := by
    intro e hmem
    obtain ⟨name, hname, id, he, hres, rfl⟩ := exists_partner hall.flip hmem
    obtain ⟨hlisted, hscope⟩ := List.mem_filter.mp hname
    exact hs.linewise_block hc DocBlock.linewise_reader he hres (hnames _ hlisted hscope)
  have htext : shown.map Entry.text = (shown.map (·.block.lines)).map terminated := by
    rw [List.map_map]
    exact List.map_congr_left fun e _ => e.text_eq
  refine ⟨shown.map ("\n".intercalate ·.block.lines), ?_, ?_, ?_, ?_⟩
  · refine List.forall₂_map_right_iff.mpr (hall.imp fun name e he fresh => ?_)
    obtain ⟨id, he, hres, rfl⟩ := he
    rw [hs.freshText?_eq he hres, e.text_eq, terminated_eq (hne e)]
  · rw [hdoc, htext, map_paragraphs_terminated, List.map_map]
    · rfl
    · exact List.forall_mem_map.mpr fun e he => ⟨hne e, hlines e he⟩
  · refine List.forall_mem_map.mpr fun e he line hline => ?_
    rw [splitOn_intercalate_feed (hne e) fun l hl => (hlines e he l hl).1] at hline
    obtain ⟨l, hl, rfl⟩ := List.mem_map.mp hline
    simpa using (hlines e he l hl).2
  · have hfeeds : (shown.map Entry.text).map (·.toList.count '\n') =
        shown.map fun e => 1 + e.dynamicMethods.size + e.ownMethods.length := by
      rw [List.map_map]
      exact List.map_congr_left fun e he => Entry.count_feed_text fun l hl => (hlines e he l hl).1
    have hsum : (shown.map fun e => 1 + e.dynamicMethods.size + e.ownMethods.length).sum =
        shown.length + report.stats.dynamicMethods + report.stats.methods := by
      rw [List.sum_map_add, List.sum_map_add, hmethods, hdynamic]
      simp
    rw [hdoc, count_feed_terminated, hfeeds, hsum, List.length_map, hclasses]
    omega

/-- Classes whose documentation breaks within a signature, a type and a parameter. -/
def gazette : Codebase := .ofList
  [{ name := "Issue", kind := .interface, docComment := some "/** @method\nint\n * no( $i\n) */",
      methods := [{ name := "run", docComment := some "@return\nstring" }] },
    { name := "Extra", interfaces := ["Issue"],
      methods :=
        [{ name := "run", docComment := some "@param\n\t$many",
            parameters := [{ name := "n", isOptional := true, default := .string "one" }] }] }]

/-- The empty name in the list is out of scope. -/
theorem document_unambiguous_gazette : ∃ report log blocks,
    run { included := ["Issue", "Extra"] } (.ok ["Issue", "", "Extra"])
      (gazette.context DocBlock.reader) = some (.ok report, log) ∧ gazette.Linewise ∧
    blocks = ["Issue\nint no( $i )\nstring public run()",
      "Extra implements Issue\nstring public run([ $many=\"one\"])"] ∧
    List.Forall₂ (fun name block => ∀ fresh,
      freshText? (gazette.context DocBlock.reader) fresh name = some (block ++ "\n"))
      ["Issue", "Extra"] blocks ∧
    (paragraphs report.document.toList).map String.ofList = blocks ++ [""] ∧
    (∀ block ∈ blocks, ∀ line ∈ block.toList.splitOn '\n', line ≠ []) ∧
    report.document.toList.count '\n' = 2 * 2 + 2 + 1 := by
  have hrun : (run { included := ["Issue", "Extra"] } (.ok ["Issue", "", "Extra"])
      (gazette.context DocBlock.reader)).bind (fun p => p.1.toOption.map fun report =>
        (report.document, report.stats.inScopeClasses, report.stats.methods,
          report.stats.dynamicMethods)) =
      some ("Issue\nint no( $i )\nstring public run()\n\n" ++
        "Extra implements Issue\nstring public run([ $many=\"one\"])\n\n", 2, 2, 1) := by
    decide +kernel
  have hparts : (paragraphs ("Issue\nint no( $i )\nstring public run()\n\n" ++
        "Extra implements Issue\nstring public run([ $many=\"one\"])\n\n").toList).map
      String.ofList = ["Issue\nint no( $i )\nstring public run()",
        "Extra implements Issue\nstring public run([ $many=\"one\"])"] ++ [""] := by
    decide +kernel
  have hscope : ["Issue", "", "Extra"].filter
      (Settings.scope { included := ["Issue", "Extra"] }).contains = ["Issue", "Extra"] := by
    decide +kernel
  have hnames : ∀ name ∈ ["Issue", "", "Extra"],
      (Settings.scope { included := ["Issue", "Extra"] }).contains name = true → name ≠ "" := by
    decide +kernel
  have hlinewise : gazette.Linewise := by decide +kernel
  obtain ⟨⟨res, log⟩, hrun, hres⟩ := Option.bind_eq_some_iff.mp hrun
  cases res with
  | error cause => cases hres
  | ok report =>
    obtain ⟨hdoc, hcounts⟩ := Prod.mk.inj (Option.some.inj hres)
    obtain ⟨hclasses, hcounts⟩ := Prod.mk.inj hcounts
    obtain ⟨hmethods, hdynamic⟩ := Prod.mk.inj hcounts
    obtain ⟨blocks, hblocks, hparagraphs, hfull, hfeeds⟩ :=
      document_unambiguous gazette _ _ report log hlinewise hnames hrun
    rw [hscope] at hblocks
    rw [hclasses, hmethods, hdynamic] at hfeeds
    rw [← hdoc] at hparts
    have hshown := List.append_cancel_right (hparagraphs.symm.trans hparts)
    exact ⟨report, log, blocks, hrun, hlinewise, hshown, hblocks, hparagraphs, hfull, hfeeds⟩

end Project

end ClassSurface
