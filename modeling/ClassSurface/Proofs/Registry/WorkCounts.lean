import ClassSurface.Proofs.Codebase.Unfolding
import ClassSurface.Proofs.Project.Sharing
import ClassSurface.Proofs.Registry.References

/-! # Proofs.Registry.WorkCounts — how much work is done for a list of classes

With a codebase for a source, what a list of classes brings into a registry can be told from the
codebase alone (`Fetches`): nothing but their ancestors, all of them if no request fails, and
without sharing a whole tree for each.

* `requestWithin_fetches`: a request fetches the class it is for.
* `document_fetches`: a document fetches the classes of its list that are in scope.
* `work_counted`: queries, entries and refusals are counted exactly.
-/

namespace ClassSurface.Registry

variable {c : Codebase} {docs : DocReader} {r s t : Registry} {id : ClassId} {e : Entry}
  {name : String}

/-- What the classes `roots` bring into a registry on the way from `r` to `s`. -/
structure Fetches {α : Type} (c : Codebase) (roots : List String) (r : Registry)
    (res : Except ResolveError α) (s : Registry) : Prop where
  grows : Grows r s
  /-- Only what can be reached is requested. -/
  reached : ∀ m ∈ s.names, m ∈ r.names ∨ ∃ root ∈ roots, c.Reaches root m
  /-- After a success all the classes are there. -/
  provided : ∀ a, res = .ok a → ∀ root ∈ roots, ∃ id, s.Provides id root
  /-- Without sharing, a success costs one entry for each node of the trees. -/
  size : ∀ a, res = .ok a → r.shared = false → s.size = r.size + (roots.map c.treeSize).sum

theorem Fetches.nil {α : Type} (r : Registry) (res : Except ResolveError α) :
    Fetches c [] r res r :=
  ⟨.refl r, fun _ hm => .inl hm, by simp, by simp⟩

theorem Fetches.append {α β : Type} {roots roots' : List String} {a : α}
    {res : Except ResolveError β} (h : Fetches c roots r (.ok a : Except ResolveError α) t)
    (h' : Fetches c roots' t res s) : Fetches c (roots ++ roots') r res s where
  grows := h.grows.trans h'.grows
  reached := by
    intro m hm
    rcases h'.reached m hm with hm | ⟨root, hroot, hreach⟩
    · rcases h.reached m hm with hm | ⟨root, hroot, hreach⟩
      · exact .inl hm
      · exact .inr ⟨root, List.mem_append_left _ hroot, hreach⟩
    · exact .inr ⟨root, List.mem_append_right _ hroot, hreach⟩
  provided := by
    intro b hb root hroot
    rcases List.mem_append.mp hroot with hroot | hroot
    · obtain ⟨id, hid⟩ := h.provided a rfl root hroot
      exact ⟨id, hid.mono h'.grows⟩
    · exact h'.provided b hb root hroot
  size := by
    intro b hb hmode
    rw [h'.size b hb (h.grows.shared.trans hmode), h.size a rfl hmode, List.map_append,
      List.sum_append]
    omega

/-- A failure fetches as little of more classes as it does of the first ones. -/
theorem Fetches.of_error {α β : Type} {roots : List String} {error : ResolveError}
    (h : Fetches c roots r (.error error : Except ResolveError α) s) (more : List String) :
    Fetches c (roots ++ more) r (.error error : Except ResolveError β) s where
  grows := h.grows
  reached := by
    intro m hm
    rcases h.reached m hm with hm | ⟨root, hroot, hreach⟩
    · exact .inl hm
    · exact .inr ⟨root, List.mem_append_left _ hroot, hreach⟩
  provided := fun _ hb => nomatch hb
  size := fun _ hb => nomatch hb

theorem Fetches.map {α β : Type} {roots : List String} {res : Except ResolveError α}
    (h : Fetches c roots r res s) (f : α → β) : Fetches c roots r (res.map f) s := by
  cases res with
  | error error => exact ⟨h.grows, h.reached, (fun _ hb => nomatch hb), fun _ hb => nomatch hb⟩
  | ok a => exact ⟨h.grows, h.reached, fun _ _ => h.provided a rfl, fun _ _ => h.size a rfl⟩

/-! ### Requests -/

/-- Every request fetches the class that it is for. -/
def FetchesEach (c : Codebase) (docs : DocReader)
    (request : String → Registry → Outcome ClassId) : Prop :=
  ∀ ⦃name : String⦄ ⦃r : Registry⦄ ⦃res : Except ResolveError ClassId⦄ ⦃s : Registry⦄,
    SteadySound docs c.view r → request name r = some (res, s) → Fetches c [name] r res s

section Nested

variable {request : String → Registry → Outcome ClassId}

theorem requestAll_fetches (hreq : Delivers (c.context docs) request)
    (hfetch : FetchesEach c docs request) :
    ∀ (names : List String) {r : Registry} {res : Except ResolveError (List ClassId)}
      {s : Registry}, SteadySound docs c.view r → requestAll request names r = some (res, s) →
      Fetches c names r res s
  | [], r, res, s, _, h => by
    cases h
    exact .nil r _
  | name :: names, r, res, s, hs, h => by
    rcases requestAll_cons_eq_some h with ⟨error, hname, rfl⟩ | ⟨id, t, res', hname, hall, rfl⟩
    · exact (hfetch hs hname).of_error names
    · have ht : SteadySound docs c.view t :=
        (hreq hs.toSound hname).1.steps.steadySound (c.bounded docs).steady hs
      exact (hfetch hs hname).append ((requestAll_fetches hreq hfetch names ht hall).map _)

/-- To resolve an entry is to fetch the ancestors that its view names, unless it is resolved. -/
theorem Resolving.reached_size (hreq : Delivers (c.context docs) request)
    (hfetch : FetchesEach c docs request) (hs : SteadySound docs c.view r)
    (he : r.entries[id]? = some e) {res : Except ResolveError Unit}
    (h : Resolving docs request id e r res s) :
    (∀ m ∈ s.names, m ∈ r.names ∨ ∃ root ∈ e.view.ancestors, c.Reaches root m) ∧
      (e.isResolved = false → ∀ a, res = .ok a → r.shared = false →
        s.size = r.size + (e.view.ancestors.map c.treeSize).sum) := by
  have hall : r.isUnderWay id e = false → e.isResolved = false →
      ∀ {res : Except ResolveError (List ClassId)} {t : Registry},
      requestAll request e.view.ancestors (r.takeUp id e) = some (res, t) →
      Fetches c e.view.ancestors (r.takeUp id e) res t := by
    intro hfree hopen res t hall
    have henter : Step (c.context docs) r (r.takeUp id e) := .enter id e he hopen hfree
    exact requestAll_fetches hreq hfetch _
      (Steps.steadySound (c.bounded docs).steady hs (.single henter)) hall
  cases h with
  | before hres =>
    refine ⟨fun m hm => .inl hm, fun hopen => ?_⟩
    rw [hopen] at hres
    cases hres
  | reentered => exact ⟨fun m hm => .inl hm, fun _ _ ha => nomatch ha⟩
  | failed hopen hfree error t hrun =>
    exact ⟨(hall hfree hopen hrun).reached, fun _ _ ha => nomatch ha⟩
  | completed hopen hfree ancestors t hrun =>
    have hnames := names_complete t docs id e.view ancestors
    refine ⟨?_, fun _ _ _ hmode => ?_⟩
    · rw [hnames]
      exact (hall hfree hopen hrun).reached
    · rw [← length_names, hnames, length_names]
      exact (hall hfree hopen hrun).size ancestors rfl hmode

end Nested

/-- What is reached from the ancestors that a view of `name` gives is reached from `name`. -/
theorem reaches_of_view {v : ClassView} (hv : c.view name = .ok v) {m : String}
    (h : ∃ root ∈ v.ancestors, c.Reaches root m) : c.Reaches name m := by
  obtain ⟨root, hroot, hreach⟩ := h
  obtain ⟨d, hd, -, hanc⟩ := Codebase.view_eq_ok hv
  rw [hanc] at hroot
  exact hreach.head ((Codebase.extends_iff_of_find? hd).mpr hroot)

/-- Requests fetch the class they are for, however deep they may nest. -/
theorem requestWithin_fetches (c : Codebase) (docs : DocReader) (depth : Nat) :
    FetchesEach c docs (requestWithin (c.context docs) depth) := by
  induction depth with
  | zero =>
    intro name r res s hs h
    cases h
  | succ depth ih =>
    intro name r res s hs h
    have hreq := requestWithin_delivers (c.context docs) depth
    obtain ⟨hrun, hprov⟩ := requestWithin_delivers (c.context docs) (depth + 1) hs.toSound h
    have hgrows := hrun.steps.grows hs.toSound
    have hs' : SteadySound docs c.view s := hrun.steps.steadySound (c.bounded docs).steady hs
    have hprovided : ∀ id, res = .ok id → ∀ root ∈ [name], ∃ id, s.Provides id root := by
      intro id hid root hroot
      obtain rfl : root = name := by simpa using hroot
      exact ⟨id, hprov id hid⟩
    cases requesting_of_requestWithin h with
    | found id e res _ hfound he hname run =>
      obtain ⟨hreached, -⟩ := run.reached_size hreq ih hs he
      have hview : c.view name = .ok e.view := hname ▸ hs.faithful he
      refine ⟨hgrows, fun m hm => ?_, hprovided, fun _ _ hmode => ?_⟩
      · exact (hreached m hm).imp_right fun h => ⟨name, by simp, reaches_of_view hview h⟩
      · simp [reusable?, hmode] at hfound
    | refused => exact ⟨hgrows, fun m hm => .inl hm, hprovided, fun _ ha => by cases ha⟩
    | accepted v res _ hmiss hanswer run =>
      have haccept := accept_excursion hmiss hanswer
      have hs₁ := haccept.steps.steadySound (c.bounded docs).steady hs
      obtain ⟨hreached, hsize⟩ := run.reached_size hreq ih hs₁ (getElem?_accept_size r name v)
      have hview : c.view name = .ok v := ((c.bounded docs).steady _ _).symm.trans hanswer
      refine ⟨hgrows, fun m hm => ?_, hprovided, fun id hid hmode => ?_⟩
      · rcases hreached m hm with hm | h
        · rw [names_accept, List.mem_append, List.mem_singleton] at hm
          rcases hm with hm | rfl
          · exact .inl hm
          · exact .inr ⟨m, by simp, .refl⟩
        · exact .inr ⟨name, by simp, reaches_of_view hview h⟩
      · obtain ⟨e, he, hname, hres⟩ := hprov id hid
        have hground : c.Grounded name := hname ▸ (hs'.resolvable hs'.faithful he hres).grounded
        obtain ⟨d, hd, -, hanc⟩ := Codebase.view_eq_ok hview
        have hone : (r.accept name v).size = r.size + 1 := Array.size_push ..
        cases res with
        | error error => cases hid
        | ok _ =>
          rw [hsize rfl () rfl hmode, hone, newEntry_view, hanc, List.map_singleton,
            List.sum_singleton, hground.treeSize_eq, Codebase.ancestorsOf_of_find? hd]
          omega

/-! ### Documents -/

/-- A document fetches the classes of its list that are in scope. -/
theorem document_fetches (scope : Scope) :
    ∀ (names : List String) {r : Registry} {res : Except ResolveError String} {s : Registry},
      SteadySound docs c.view r → document (c.context docs) scope names r = some (res, s) →
      Fetches c (names.filter scope.contains) r res s
  | [], r, res, s, _, h => by
    cases h
    exact .nil r _
  | name :: names, r, res, s, hs, h => by
    rw [document] at h
    split at h
    · rename_i hscope
      rw [List.filter_cons_of_pos hscope]
      rcases Outcome.andThen_eq_some h with ⟨error, hreq, rfl⟩ | ⟨id, t, hreq, h⟩
      · exact (requestWithin_fetches c docs _ hs hreq).of_error _
      · obtain ⟨res', hrest, rfl⟩ := Outcome.andThen_ok_eq_some h
        have hrun := request_excursion hs.toSound hreq
        obtain ⟨e, he, -, hres⟩ := provides_of_request hs.toSound hreq
        have hrender : Step (c.context docs) t (t.markRendered id) := .render id e he hres
        have ht := hrun.steps.steadySound (c.bounded docs).steady hs
        have hrest := document_fetches scope names
          (Steps.steadySound (c.bounded docs).steady ht (.single hrender)) hrest
        -- writing the class down changes nothing that is counted
        have hrest : Fetches c (names.filter scope.contains) t res' s :=
          ⟨(hrender.grows ht.toSound).trans hrest.grows, hrest.reached, hrest.provided, hrest.size⟩
        exact (requestWithin_fetches c docs _ hs hreq).append (hrest.map _)
    · rename_i hscope
      rw [List.filter_cons_of_neg hscope]
      exact document_fetches scope names hs h

/-- All that a provided class reaches is provided. -/
theorem SteadySound.provides_of_reaches (hs : SteadySound docs c.view r) {n m : String}
    (hn : ∃ id, r.Provides id n) (h : c.Reaches n m) : ∃ id, r.Provides id m := by
  induction h with
  | refl => exact hn
  | tail _ hstep ih =>
    obtain ⟨id, e, he, rfl, hres⟩ := ih
    obtain ⟨i, -, hprov⟩ := exists_partner (hs.provides_ancestors he hres).flip
      ((extends_iff_of_faithful hs.faithful he).mp hstep)
    exact ⟨i, hprov⟩

/-- A list without repetition is as long as the set of its members is large. -/
theorem encard_mem_eq_length {l : List String} (h : l.Nodup) : {m | m ∈ l}.encard = l.length := by
  rw [← List.coe_toFinset, Set.encard_coe_eq_coe_finsetCard, List.toFinset_card_of_nodup h]

/-- After a success, a registry that was empty holds what was fetched, and nothing else. -/
theorem Fetches.holds {α : Type} {roots : List String} {a : α}
    (h : Fetches c roots r (.ok a : Except ResolveError α) s) (hnew : r.names = [])
    (hs : SteadySound docs c.view s) : c.Holds roots r.shared s.size := by
  cases hmode : r.shared with
  | true =>
    have hset : {m | ∃ root ∈ roots, c.Reaches root m} = {m | m ∈ s.names} := by
      ext m
      constructor
      · rintro ⟨root, hroot, hreach⟩
        obtain ⟨id, e, he, hname, -⟩ := hs.provides_of_reaches (h.provided a rfl root hroot) hreach
        exact mem_names_iff.mpr ⟨id, e, he, hname⟩
      · intro hm
        rcases h.reached m hm with hm | hm
        · rw [hnew] at hm
          exact absurd hm List.not_mem_nil
        · exact hm
    show {m | ∃ root ∈ roots, c.Reaches root m}.encard = s.size
    rw [hset, encard_mem_eq_length (hs.nodup_names (h.grows.shared.trans hmode)), length_names]
  | false =>
    have hempty : r.size = 0 := by
      rw [← length_names, hnew]
      rfl
    show s.size = (roots.map c.treeSize).sum
    rw [h.size a rfl hmode, hempty, Nat.zero_add]

theorem document_holds {shared : Bool} {log : Array Event} {scope : Scope} {names : List String}
    {text : String}
    (h : document (c.context docs) scope names { shared, log } = some (.ok text, s)) :
    c.Holds (names.filter scope.contains) shared s.size := by
  have hnew : SteadySound docs c.view { shared, log } := steadySound_of_empty rfl rfl rfl
  have hsteps := (document_steps scope names hnew.toSound h).1
  exact (document_fetches scope names hnew h).holds rfl
    (hsteps.steadySound (c.bounded docs).steady hnew)

/-- A run that succeeds writes a document from a new registry, and counts what this has come to. -/
theorem document_of_run {settings : Settings} {classes : List String} {ctx : Context}
    {report : Project.Report} {log : List Event}
    (h : Project.run settings (.ok classes) ctx = some (.ok report, log)) :
    ∃ s, document ctx settings.scope classes
        { shared := settings.shared, log := #[Project.startEvent settings classes] } =
          some (.ok report.document, s) ∧ report.stats = Stats.collect s := by
  rw [Project.run] at h
  split at h
  · cases h
  · cases h
  · rename_i text s hdoc
    cases h
    exact ⟨s, hdoc, rfl⟩

/-! ### All counts together -/

/-- After any operations, every query has brought an entry or was refused; with sharing no name was
answered twice. -/
theorem play_counted {ctx : Context} {shared : Bool} {ops : List Op}
    {answers : List (Except ResolveError Answer)}
    (h : play ctx ops { shared } = some (answers, r)) :
    r.queries = r.size + (queriesOf ctx ops { shared }).countP (! ·.isAnswered) ∧
      (shared = true → (answeredNames (queriesOf ctx ops { shared })).Nodup) := by
  have hreach : Reachable ctx shared r := ⟨ops, answers, h⟩
  have hasks := queriesOf_asks ctx ops h
  have hnames : r.names = answeredNames (queriesOf ctx ops { shared }) := hasks.names
  constructor
  · have hcount : r.queries = 0 + (queriesOf ctx ops { shared }).length := hasks.count
    rw [hcount, length_answeredNames, ← hnames, length_names]
    omega
  · intro hshared
    rw [← hnames]
    exact hreach.sound.nodup_names ((hreach.steps.grows (sound_new _ _)).shared.trans hshared)

/-- **Work counts**: after any operations on a registry over a codebase, there were as many queries
as there are entries and refusals, a further request is refused at most once and asks nothing more
after that, and with sharing no name was answered twice. A new registry that a list of classes is
written from has, with sharing, one entry for each class that can be reached from those in scope,
and without sharing one for each node of their trees; so say the counts of a run. -/
theorem work_counted (c : Codebase) (docs : DocReader) :
    (∀ (shared : Bool) (ops : List Op), ∃ answers r,
      play (c.context docs) ops { shared } = some (answers, r) ∧
      Asks (c.context docs) { shared } (queriesOf (c.context docs) ops { shared }) r ∧
      r.queries = r.size + (queriesOf (c.context docs) ops { shared }).countP (! ·.isAnswered) ∧
      (shared = true → (answeredNames (queriesOf (c.context docs) ops { shared })).Nodup) ∧
      ∀ name : String, ∃ qs res s, (Op.request name).queries (c.context docs) r = qs ∧
        r.request (c.context docs) name = some (res, s) ∧ Asks (c.context docs) r qs s ∧
        qs.countP (! ·.isAnswered) ≤ 1 ∧ ∀ q ∈ qs.dropLast, q.isAnswered = true) ∧
    (∀ (shared : Bool) (log : Array Event) (scope : Scope) (names : List String) (text : String)
      (s : Registry),
      document (c.context docs) scope names { shared, log } = some (.ok text, s) →
        c.Holds (names.filter scope.contains) shared s.size ∧ (Stats.collect s).classes = s.size) ∧
    (∀ (settings : Settings) (classes : List String) (report : Project.Report)
      (log : List Event),
      Project.run settings (.ok classes) (c.context docs) = some (.ok report, log) →
        c.Holds (classes.filter settings.scope.contains) settings.shared report.stats.classes) ∧
    ∀ (n : String) (d : ClassDecl), c.Resolvable n → c.find? n = some d →
      c.treeSize n =
        1 + (d.parent.toList.map c.treeSize).sum + (d.interfaces.map c.treeSize).sum := by
  refine ⟨fun shared ops => ?_, fun shared log scope names text s h => ⟨document_holds h, rfl⟩,
    fun settings classes report log h => ?_, fun n d hn hd => ?_⟩
  · have hb := c.bounded docs
    have hnew : SteadySound docs c.view { shared } := steadySound_of_empty rfl rfl rfl
    obtain ⟨answers, r, hplay⟩ := exists_play_eq_some hb ops hnew
    obtain ⟨hcount, honce⟩ := play_counted hplay
    have hreach : Reachable (c.context docs) shared r := ⟨ops, answers, hplay⟩
    have hs : SteadySound docs c.view r := hreach.steadySound hb
    refine ⟨answers, r, hplay, queriesOf_asks _ ops hplay, hcount, honce, fun name => ?_⟩
    obtain ⟨⟨res, s⟩, hreq⟩ := Option.isSome_iff_exists.mp (request_isSome hb hs name)
    obtain ⟨hasks, hstraight⟩ := queriesWithin_asksTo (c.context docs) _ name r hreq
    exact ⟨_, res, s, rfl, hreq, hasks, hstraight.countP_le_one, hstraight.last⟩
  · obtain ⟨s, hdoc, hstats⟩ := document_of_run h
    rw [hstats]
    exact document_holds hdoc
  · rw [hn.grounded.treeSize_eq, Codebase.ancestorsOf_of_find? hd, ClassDecl.ancestors,
      List.map_append, List.sum_append]
    omega

/-- An interface that two classes have: with sharing there is one entry for each of the three
classes, and without sharing there are four for the class that has it twice over and two for its
parent. -/
theorem work_counted_diamond : ∃ text s text' s',
    document (diamond.context .rejecting) (.only "") ["Leaf", "Base"] { shared := true } =
      some (.ok text, s) ∧ s.size = 3 ∧ diamond.Holds ["Leaf", "Base"] true 3 ∧
    document (diamond.context .rejecting) (.only "") ["Leaf", "Base"] { shared := false } =
      some (.ok text', s') ∧ s'.size = 6 ∧ diamond.Holds ["Leaf", "Base"] false 6 := by
  have hrun : ∀ shared, ∃ text s,
      document (diamond.context .rejecting) (.only "") ["Leaf", "Base"] { shared } =
        some (.ok text, s) ∧ s.size = if shared then 3 else 6 := by
    have hsize : ∀ shared, (document (diamond.context .rejecting) (.only "") ["Leaf", "Base"]
        { shared }).map (fun p => (failure? p.1, p.2.size)) =
          some (none, if shared then 3 else 6) := by
      decide +kernel
    intro shared
    obtain ⟨⟨res, s⟩, hdoc, heq⟩ := Option.map_eq_some_iff.mp (hsize shared)
    obtain ⟨hok, hsize⟩ := Prod.mk.inj heq
    obtain ⟨text, rfl⟩ := failure?_eq_none_iff.mp hok
    exact ⟨text, s, hdoc, hsize⟩
  obtain ⟨text, s, hdoc, hsize⟩ := hrun true
  obtain ⟨text', s', hdoc', hsize'⟩ := hrun false
  have hholds := ((work_counted diamond .rejecting).2.1 _ _ _ _ text s hdoc).1
  have hholds' := ((work_counted diamond .rejecting).2.1 _ _ _ _ text' s' hdoc').1
  rw [hsize] at hholds
  rw [hsize'] at hholds'
  exact ⟨text, s, text', s', hdoc, hsize, hholds, hdoc', hsize', hholds'⟩

end ClassSurface.Registry
