import ClassSurface.Proofs.Codebase.Flattening

/-! # Proofs.Codebase.VisibleMethods — which methods a class shows

On every table, also on one with cycles or with names that nothing declares, the walk from a class
visits each declared class that can be reached (`mem_lineage_iff`), the chain of parents first
(`parentChain_isPrefix`). So the methods that a class shows are the first ones of their names along
the chain of parents, or else somewhere above.

* `Flattens c n methods`: what can be said of the methods that `n` shows, on any table.
* `view_flattens`: a declared class is shown with such methods.
* `view_composes`: where no cycle can be reached, they are put together from what its ancestors
  show.
-/

namespace ClassSurface.Codebase

open Relation

variable {c : Codebase} {n m z a : String} {unvisited pending : List String}

/-! ### The walk visits all that can be reached -/

/-- The walk ends by itself: more visits than there are names are not made. -/
theorem walk_eq_visits : ∀ (unvisited pending : List String) (k : Nat), unvisited.length ≤ k →
    c.walk k unvisited pending = c.visits unvisited pending := by
  intro unvisited pending
  induction unvisited, pending using visits_induction with
  | nil unvisited =>
    intro k _
    rw [visits_nil]
    cases k <;> rfl
  | skip unvisited n pending hn ih =>
    intro k hk
    rw [visits_of_not_mem hn, ← ih k hk]
    cases k with
    | zero => rfl
    | succ k => simp [walk, hn]
  | visit unvisited n pending hn ih =>
    intro k hk
    have hlt := length_erase_lt hn
    obtain ⟨k, rfl⟩ : ∃ j, k = j + 1 := ⟨k - 1, by omega⟩
    rw [visits_of_mem hn, ← ih _ _ hlt k (by omega)]
    simp [walk, hn]

/-- Whatever is pending and not yet visited will be visited. -/
theorem mem_visits_of_pending : ∀ unvisited pending : List String, z ∈ pending → z ∈ unvisited →
    z ∈ c.visits unvisited pending := by
  intro unvisited pending
  induction unvisited, pending using visits_induction with
  | nil unvisited => simp
  | skip unvisited n pending hn ih =>
    intro hz hin
    rw [visits_of_not_mem hn]
    rcases List.mem_cons.mp hz with rfl | hz
    · exact absurd hin hn
    · exact ih hz hin
  | visit unvisited n pending hn ih =>
    intro hz hin
    rw [visits_of_mem hn, List.mem_cons]
    by_cases hzn : z = n
    · exact .inl hzn
    · have hz : z ∈ pending := List.mem_of_ne_of_mem hzn hz
      exact .inr (ih _ _ (length_erase_lt hn) (List.mem_append_right _ hz)
        ((List.mem_erase_of_ne hzn).mpr hin))

/-- With a class its ancestors are visited, if they were not before. -/
theorem mem_visits_of_extends : ∀ unvisited pending : List String, z ∈ c.visits unvisited pending →
    c.Extends z a → a ∈ unvisited → a ∈ c.visits unvisited pending := by
  intro unvisited pending
  induction unvisited, pending using visits_induction with
  | nil unvisited => simp
  | skip unvisited n pending hn ih =>
    rw [visits_of_not_mem hn]
    exact ih
  | visit unvisited n pending hn ih =>
    rw [visits_of_mem hn, List.mem_cons, List.mem_cons]
    intro hz ha hin
    by_cases han : a = n
    · exact .inl han
    · have hin : a ∈ unvisited.erase n := (List.mem_erase_of_ne han).mpr hin
      rcases hz with rfl | hz
      · exact .inr (mem_visits_of_pending _ _ (List.mem_append_left _ ha) hin)
      · exact .inr (ih _ _ (length_erase_lt hn) hz ha hin)

theorem mem_names_of_find? {d : ClassDecl} (h : c.find? n = some d) : n ∈ c.names :=
  mem_names_iff_find?.mpr ⟨d, h⟩

theorem mem_names_of_extends (h : c.Extends n a) : n ∈ c.names := by
  by_contra hout
  exact not_extends_of_find?_eq_none (find?_eq_none_of_not_mem hout) h

/-- The lineage of a class is all that it reaches and that is declared. -/
theorem mem_lineage_iff : z ∈ c.lineage n ↔ c.Reaches n z ∧ z ∈ c.names := by
  rw [lineage_eq_visits]
  constructor
  · intro hz
    obtain ⟨hin, p, hp, hreach⟩ := of_mem_visits _ _ hz
    rw [List.mem_singleton.mp hp] at hreach
    exact ⟨hreach, hin⟩
  · rintro ⟨hreach, hin⟩
    induction hreach with
    | refl => exact mem_visits_of_pending _ _ List.mem_cons_self hin
    | tail _ hstep ih =>
      exact mem_visits_of_extends _ _ (ih (mem_names_of_extends hstep)) hstep hin

/-! ### Names that are declared and names that are visible -/

/-- `n` itself declares a method called `m`. -/
def Declares (c : Codebase) (n m : String) : Prop :=
  ∃ d, c.find? n = some d ∧ m ∈ d.methods.map (·.name)

theorem mem_map_name_ownMethods : m ∈ (c.ownMethods n).map (·.name) ↔ c.Declares n m := by
  unfold ownMethods Declares
  cases c.find? n with
  | none => simp
  | some d => simp

theorem own?_isSome_iff : (c.own? m n).isSome ↔ c.Declares n m := by
  rw [own?, List.find?_isSome, ← mem_map_name_ownMethods]
  simp

instance : Decidable (c.Declares n m) := decidable_of_iff _ own?_isSome_iff

theorem own?_eq_none_iff : c.own? m n = none ↔ ¬ c.Declares n m := by
  rw [← own?_isSome_iff, Option.not_isSome_iff_eq_none]

theorem Declares.mem_names (h : c.Declares n m) : n ∈ c.names := by
  obtain ⟨d, hd, -⟩ := h
  exact mem_names_of_find? hd

/-- A name is visible on a class exactly if a class that it reaches declares it. -/
theorem mem_map_name_visibleMethods :
    m ∈ (c.visibleMethods n).map (·.name) ↔ ∃ z, c.Reaches n z ∧ c.Declares z m := by
  rw [visibleMethods, mem_map_name_firstOfEachName, List.map_flatMap, List.mem_flatMap]
  simp only [mem_lineage_iff, mem_map_name_ownMethods]
  constructor
  · rintro ⟨z, ⟨hreach, -⟩, hdecl⟩
    exact ⟨z, hreach, hdecl⟩
  · rintro ⟨z, hreach, hdecl⟩
    exact ⟨z, ⟨hreach, hdecl.mem_names⟩, hdecl⟩

/-- A visible method is the one that its declaring class, which is reached, has of its own. -/
theorem own?_of_mem_visibleMethods {f : MethodDecl} (hf : f ∈ c.visibleMethods n) :
    c.Reaches n f.declaringClass ∧ c.own? f.name f.declaringClass = some f := by
  have hvisible := visible?_of_mem hf
  rw [visible?_eq_findSome?, ← lineage_eq_visits] at hvisible
  obtain ⟨z, hz, hown⟩ := List.exists_of_findSome?_eq_some hvisible
  rw [declaringClass_of_own? hown]
  exact ⟨(mem_lineage_iff.mp hz).1, hown⟩

/-! ### The first of each name, by the library's own word -/

/-- Two methods of one name. -/
def sameName (f g : MethodDecl) : Bool := f.name == g.name

theorem firstOfEachName_filter (name : String) (ms : List MethodDecl) :
    firstOfEachName (ms.filter (·.name ≠ name)) = (firstOfEachName ms).filter (·.name ≠ name) := by
  induction ms with
  | nil => rfl
  | cons a ms ih =>
    by_cases h : a.name = name
    · rw [List.filter_cons_of_neg (by simp [h]), ih, firstOfEachName,
        List.filter_cons_of_neg (by simp [h]), List.filter_filter]
      simp [h]
    · rw [List.filter_cons_of_pos (by simp [h]), firstOfEachName, ih, firstOfEachName,
        List.filter_cons_of_pos (by simp [h]), List.filter_filter, List.filter_filter]
      simp only [Bool.and_comm]

theorem firstOfEachName_eq_eraseDupsBy (ms : List MethodDecl) :
    firstOfEachName ms = ms.eraseDupsBy sameName := by
  induction hk : ms.length using Nat.strongRecOn generalizing ms with
  | _ k ih =>
    cases ms with
    | nil => rfl
    | cons a ms =>
      have hfilter : ms.filter (fun b => decide (sameName b a = false)) =
          ms.filter (·.name ≠ a.name) := by
        apply List.filter_congr
        intro b _
        simp [sameName]
      have hlt : (ms.filter (·.name ≠ a.name)).length < k := by
        have := List.length_filter_le (·.name ≠ a.name) ms
        rw [List.length_cons] at hk
        omega
      rw [List.eraseDupsBy_cons, hfilter, ← ih _ hlt _ rfl, firstOfEachName_filter, firstOfEachName]

/-- The methods that a class declares come first; what follows is declared elsewhere. -/
theorem exists_visibleMethods_eq {d : ClassDecl} (hd : c.find? n = some d) :
    ∃ inherited, c.visibleMethods n =
        (d.methods.map ({ · with declaringClass := n })).eraseDupsBy sameName ++ inherited ∧
      ∀ f ∈ inherited, f.declaringClass ≠ n := by
  have hshown := firstOfEachName_append (c.ownMethods n)
    ((c.visits (c.names.erase n) (c.ancestorsOf n ++ [])).flatMap c.ownMethods)
  rw [← List.flatMap_cons, ← visits_of_mem (mem_names_of_find? hd), ← lineage_eq_visits,
    ← visibleMethods] at hshown
  rw [← ownMethods_of_find? hd, ← firstOfEachName_eq_eraseDupsBy]
  refine ⟨_, hshown, fun f hf hdecl => ?_⟩
  -- a method that the class declares itself would have been kept before
  obtain ⟨-, hfirst⟩ := own?_of_mem_visibleMethods (hshown ▸ List.mem_append_right _ hf)
  rw [hdecl] at hfirst
  have hdeclares : c.Declares n f.name := own?_isSome_iff.mp (by rw [hfirst]; rfl)
  obtain ⟨-, hnew⟩ := List.mem_filter.mp hf
  exact absurd (mem_map_name_ownMethods.mpr hdeclares) (by simpa using hnew)

/-! ### The chain of parents -/

/-- The classes from `name` up along the parents, until one is undeclared or stands in `path`, the
part of the chain before. -/
def parentChainFrom (c : Codebase) (path : List String) (name : String) : List String :=
  match _h : c.find? name with
  | none => []
  | some d =>
    if name ∈ path then []
    else
      match d.parent with
      | none => [name]
      | some parent => name :: parentChainFrom c (name :: path) parent
termination_by (c.unvisited path).length
decreasing_by exact length_unvisited_cons_lt (mem_names_of_find? _h) ‹_›

/-- The classes from `name` up along the parents, until one is undeclared or was met before. -/
def parentChain (c : Codebase) (name : String) : List String := c.parentChainFrom [] name

theorem parentChainFrom_of_not_mem {path : List String} {d : ClassDecl} (h : c.find? n = some d)
    (hp : n ∉ path) : c.parentChainFrom path n =
      n :: d.parent.toList.flatMap (c.parentChainFrom (n :: path)) := by
  rw [parentChainFrom]
  split
  · simp_all
  · rename_i d' h'
    obtain rfl : d' = d := Option.some.inj (h'.symm.trans h)
    rw [if_neg hp]
    cases d'.parent <;> simp

/-- A walk that starts with `n` goes up along the parents first, as far as they are not visited. -/
theorem parentChainFrom_isPrefix (path : List String) (n : String) :
    ∀ unvisited pending : List String, (∀ z ∈ c.names, z ∉ path → z ∈ unvisited) →
      c.parentChainFrom path n <+: c.visits unvisited (n :: pending) := by
  induction path, n using parentChainFrom.induct (c := c) with
  | case1 path n h =>
    intro unvisited pending _
    rw [parentChainFrom]
    split
    · exact List.nil_prefix
    · simp_all
  | case2 path n d h hp =>
    intro unvisited pending _
    rw [parentChainFrom]
    split
    · exact List.nil_prefix
    · rw [if_pos hp]
      exact List.nil_prefix
  | case3 path n d h hp hparent =>
    intro unvisited pending hleft
    rw [parentChainFrom_of_not_mem h hp, visits_of_mem (hleft n (mem_names_of_find? h) hp), hparent]
    simp
  | case4 path n d h hp parent hparent ih =>
    intro unvisited pending hleft
    have hchain : d.parent.toList.flatMap (c.parentChainFrom (n :: path)) =
        c.parentChainFrom (n :: path) parent := by simp [hparent]
    have hanc : c.ancestorsOf n = parent :: d.interfaces := by
      simp [ancestorsOf_of_find? h, ClassDecl.ancestors, hparent]
    rw [parentChainFrom_of_not_mem h hp, visits_of_mem (hleft n (mem_names_of_find? h) hp), hchain,
      hanc, List.cons_append, List.prefix_cons_inj]
    refine ih _ _ fun z hz hout => ?_
    rw [List.mem_cons, not_or] at hout
    exact (List.mem_erase_of_ne hout.1).mpr (hleft z hz hout.2)

theorem parentChain_isPrefix (c : Codebase) (n : String) : c.parentChain n <+: c.lineage n := by
  rw [lineage_eq_visits]
  exact parentChainFrom_isPrefix [] n c.names [] fun z hz _ => hz

/-- The nearest declaration along the parents is the one that is visible. -/
theorem visible?_of_parentChain {before after : List String}
    (hchain : c.parentChain n = before ++ z :: after) (hz : c.Declares z m)
    (hbefore : ∀ y ∈ before, ¬ c.Declares y m) : c.visible? m n = c.own? m z := by
  obtain ⟨rest, hrest⟩ := c.parentChain_isPrefix n
  obtain ⟨f, hf⟩ := Option.isSome_iff_exists.mp (own?_isSome_iff.mpr hz)
  rw [visible?_eq_findSome?, ← lineage_eq_visits, ← hrest, hchain, hf, List.append_assoc,
    List.findSome?_eq_some_iff]
  exact ⟨before, z, after ++ rest, by simp, hf, fun y hy => own?_eq_none_iff.mpr (hbefore y hy)⟩

/-! ### Flattening -/

/-- What holds of the methods that `n` shows, on any table. -/
structure Flattens (c : Codebase) (n : String) (methods : List MethodDecl) : Prop where
  /-- No name occurs twice. -/
  distinct : (methods.map (·.name)).Nodup
  /-- The names are those that the declared classes above `n`, itself included, declare. -/
  names : ∀ m, m ∈ methods.map (·.name) ↔ ∃ z, c.Reaches n z ∧ c.Declares z m
  /-- A method is the first of its name in the declaration of a class that is reached; only the
  class is filled in. -/
  declared : ∀ f ∈ methods, c.Reaches n f.declaringClass ∧
    ∃ d first, c.find? f.declaringClass = some d ∧
      d.methods.find? (·.name = f.name) = some first ∧
      f = { first with declaringClass := f.declaringClass }
  /-- The methods of the class itself come first, each where its name is first declared. -/
  own_first : ∀ d, c.find? n = some d → ∃ inherited,
    methods = (d.methods.map ({ · with declaringClass := n })).eraseDupsBy sameName ++ inherited ∧
      ∀ f ∈ inherited, f.declaringClass ≠ n
  /-- If a class on the chain of parents declares a name, the nearest such class provides it. -/
  nearest : ∀ m before z after, c.parentChain n = before ++ z :: after → c.Declares z m →
    (∀ y ∈ before, ¬ c.Declares y m) → ∃ f ∈ methods, f.name = m ∧ f.declaringClass = z

theorem flattens_visibleMethods (c : Codebase) (n : String) :
    c.Flattens n (c.visibleMethods n) where
  distinct := List.pairwise_map.mpr (pairwise_firstOfEachName _)
  names := fun m => mem_map_name_visibleMethods
  declared := by
    intro f hf
    obtain ⟨hreach, hown⟩ := own?_of_mem_visibleMethods hf
    obtain ⟨d, hd, -⟩ := own?_isSome_iff.mp (Option.isSome_of_eq_some hown)
    rw [own?_eq hd, Option.map_eq_some_iff] at hown
    obtain ⟨first, hfirst, hf⟩ := hown
    exact ⟨hreach, d, first, hd, hfirst, hf.symm⟩
  own_first := fun d hd => exists_visibleMethods_eq hd
  nearest := by
    intro m before z after hchain hz hbefore
    have hvisible := visible?_of_parentChain hchain hz hbefore
    obtain ⟨f, hf⟩ := Option.isSome_iff_exists.mp (own?_isSome_iff.mpr hz)
    rw [hf] at hvisible
    have hname : f.name = m := by simpa using List.find?_some hvisible
    exact ⟨f, List.mem_of_find?_eq_some hvisible, hname, declaringClass_of_own? hf⟩

theorem view_of_find? {d : ClassDecl} (hd : c.find? n = some d) :
    ∃ v, c.view n = .ok v ∧ v.methods = c.visibleMethods n := by
  rw [view, hd]
  exact ⟨_, rfl, rfl⟩

/-- **Flattening**: on every table, also on one with cycles or with undeclared parents and
interfaces, a declared class is shown. The walk that collects its methods ends by itself, however
many visits it may make, and the methods are the first of their names: sound, complete and without
repetition, the own ones first, and those along the parents before any other. -/
theorem view_flattens (c : Codebase) (n : String) (hn : c.contains n) :
    ∃ v, c.view n = .ok v ∧ c.Flattens n v.methods ∧
      ∀ k, c.size ≤ k → c.walk k c.names [n] = c.lineage n := by
  obtain ⟨d, hd⟩ := contains_iff_find?.mp hn
  obtain ⟨v, hv, hmethods⟩ := view_of_find? hd
  refine ⟨v, hv, hmethods ▸ flattens_visibleMethods c n, fun k hk => ?_⟩
  rw [lineage_eq_visits]
  exact walk_eq_visits _ _ k (by rwa [names, List.length_map, ← size])

/-- Two classes that extend each other, with an interface that leads back to one of them and one
that nothing declares. -/
def tangle : Codebase := .ofList
  [{ name := "Door", parent := some "Gate", interfaces := ["Painted"]
     methods := [{ name := "open" }, { name := "open", isStatic := true }, { name := "shut" }] },
    { name := "Gate", parent := some "Door", interfaces := ["Gone"]
      methods := [{ name := "shut" }, { name := "lock" }] },
    { name := "Painted", kind := .interface, interfaces := ["Gate"]
      methods := [{ name := "lock" }, { name := "paint" }] }]

/-- The lock is that of the parent, although the interface has one too. -/
theorem view_flattens_tangle : tangle.contains "Door" ∧
    tangle.parentChain "Door" = ["Door", "Gate"] ∧
    ∃ v, tangle.view "Door" = .ok v ∧
      v.methods.map (fun f => (f.name, f.declaringClass, f.isStatic)) =
        [("open", "Door", false), ("shut", "Door", false), ("lock", "Gate", false),
          ("paint", "Painted", false)] ∧
      tangle.Flattens "Door" v.methods := by
  have hdoor : tangle.contains "Door" := by decide +kernel
  have hview : (tangle.view "Door").toOption.map (fun v =>
      v.methods.map fun f => (f.name, f.declaringClass, f.isStatic)) =
      some [("open", "Door", false), ("shut", "Door", false), ("lock", "Gate", false),
        ("paint", "Painted", false)] := by
    decide +kernel
  obtain ⟨v, hv, hflat, -⟩ := view_flattens tangle "Door" hdoor
  rw [hv] at hview
  exact ⟨hdoor, by decide +kernel, v, hv, Option.some.inj hview, hflat⟩

/-! ### One level at a time -/

/-- The methods that the class called `n` shows; none if there is no such class. -/
def methodsShown (c : Codebase) (n : String) : List MethodDecl :=
  match c.view n with
  | .ok v => v.methods
  | .error _ => []

theorem methodsShown_eq (c : Codebase) (n : String) : c.methodsShown n = c.visibleMethods n := by
  by_cases hn : n ∈ c.names
  · obtain ⟨d, hd⟩ := mem_names_iff_find?.mp hn
    obtain ⟨v, hv, hmethods⟩ := view_of_find? hd
    rw [methodsShown, hv]
    exact hmethods
  · rw [methodsShown, view, find?_eq_none_of_not_mem hn, visibleMethods_of_not_mem hn]

/-- **Composition**: let no cycle be reached from a declared class; names that nothing declares may
be. The methods that it shows are its own ones, those that its parent shows and those that each of
its interfaces shows, one after the other, and of all these the first of each name: it does no harm
that the walk passes over an ancestor that it has met before. -/
theorem view_composes (c : Codebase) (n : String) (d : ClassDecl) (hd : c.find? n = some d)
    (hacyclic : ∀ z, c.Reaches n z → ¬ TransGen c.Extends z z) :
    ∃ v, c.view n = .ok v ∧
      v.methods = (d.methods.map (fun f => ({ f with declaringClass := n } : MethodDecl)) ++
        d.parent.toList.flatMap c.methodsShown ++
        d.interfaces.flatMap c.methodsShown).eraseDupsBy sameName := by
  obtain ⟨v, hv, hmethods⟩ := view_of_find? hd
  refine ⟨v, hv, ?_⟩
  rw [hmethods, visibleMethods_eq (grounded_of_acyclic hacyclic), firstOfEachName_eq_eraseDupsBy,
    ownMethods_of_find? hd, ancestorsOf_of_find? hd, ClassDecl.ancestors, List.flatMap_append,
    ← List.append_assoc]
  simp only [funext (methodsShown_eq c)]

/-- An interface that is reached three times, by the parent, by another interface and by itself, and
one that nothing declares. -/
def household : Codebase := .ofList
  [{ name := "Named", kind := .interface, methods := [{ name := "label" }] },
    { name := "Owned", kind := .interface, interfaces := ["Named"]
      methods := [{ name := "owner" }] },
    { name := "Item", interfaces := ["Gone", "Named"], methods := [{ name := "price" }] },
    { name := "Chair", parent := some "Item", interfaces := ["Owned", "Named"]
      methods := [{ name := "sit" }, { name := "price" }] }]

theorem view_composes_household : ∃ d v, household.find? "Chair" = some d ∧
    (∀ z, household.Reaches "Chair" z → ¬ TransGen household.Extends z z) ∧
    household.view "Chair" = .ok v ∧
    v.methods.map (fun f => (f.name, f.declaringClass)) =
      [("sit", "Chair"), ("price", "Chair"), ("label", "Named"), ("owner", "Owned")] ∧
    household.methodsShown "Gone" = [] ∧ (household.methodsShown "Owned").length = 2 ∧
    v.methods = (d.methods.map (fun f => ({ f with declaringClass := "Chair" } : MethodDecl)) ++
      d.parent.toList.flatMap household.methodsShown ++
      d.interfaces.flatMap household.methodsShown).eraseDupsBy sameName := by
  have hacyclic : ∀ z, household.Reaches "Chair" z → ¬ TransGen household.Extends z z := fun _ _ =>
    not_transGen_self_of_rank ["Gone", "Named", "Owned", "Item", "Chair"].idxOf
      (by decide +kernel)
  have hview : (household.view "Chair").toOption.map (fun v =>
      v.methods.map fun f => (f.name, f.declaringClass)) =
      some [("sit", "Chair"), ("price", "Chair"), ("label", "Named"), ("owner", "Owned")] := by
    decide +kernel
  obtain ⟨d, hd⟩ := contains_iff_find?.mp (show household.contains "Chair" by decide +kernel)
  obtain ⟨v, hv, hmethods⟩ := view_composes household "Chair" d hd hacyclic
  rw [hv] at hview
  exact ⟨d, v, hd, hacyclic, hv, Option.some.inj hview, by rfl, by decide +kernel, hmethods⟩

end ClassSurface.Codebase
