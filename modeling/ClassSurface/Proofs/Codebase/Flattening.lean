import ClassSurface.Proofs.Codebase.Reach
import Mathlib.Data.List.Nodup

/-! # Proofs.Codebase.Flattening — visible methods, one level at a time

The methods visible on a class are collected by one walk over all that it inherits from, which
passes over whatever it has visited before. Where no cycle can be reached, the outcome can be told
one level at a time (`visibleMethods_eq`): the class's own methods, then those visible on its
ancestors, and of these the first of each name.

* `visits_append`: a walk over two lists is a walk over the first and then one over the second that
  passes over what the first has visited.
* `firstOfEachName_visits`: passing over does no harm as long as what was visited before has brought
  along all names that could be found there.
* `visible?_eq`: a method is the class's own, or else the one that is visible on the first of its
  ancestors that has any.
-/

namespace ClassSurface

/-- In a list without repeated names everything is found under its name. -/
theorem find?_of_mem {α : Type} (name : α → String) {xs : List α}
    (h : xs.Pairwise fun a b => name a ≠ name b) {x : α} (hx : x ∈ xs) :
    xs.find? (fun a => name a = name x) = some x := by
  induction xs with
  | nil => exact absurd hx List.not_mem_nil
  | cons a xs ih =>
    obtain ⟨ha, hxs⟩ := List.pairwise_cons.mp h
    rcases List.mem_cons.mp hx with rfl | hx
    · simp
    · rw [List.find?_cons_of_neg (by simpa using ha x hx), ih hxs hx]

namespace Codebase

open Relation

/-! ### The first method of each name -/

section FirstOfEachName

variable {xs ys zs : List MethodDecl}

theorem mem_map_name_firstOfEachName {name : String} :
    name ∈ (firstOfEachName xs).map (·.name) ↔ name ∈ xs.map (·.name) := by
  induction xs with
  | nil => simp [firstOfEachName]
  | cons a xs ih =>
    by_cases h : name = a.name
    · simp [firstOfEachName, h]
    · have hne : ∀ b : MethodDecl, b.name = name → b.name ≠ a.name := by
        rintro b rfl
        exact h
      simp only [firstOfEachName, List.map_cons, List.mem_cons, h, false_or]
      rw [← ih]
      simp only [List.mem_map, List.mem_filter, decide_eq_true_eq]
      constructor
      · rintro ⟨b, ⟨hb, -⟩, hname⟩
        exact ⟨b, hb, hname⟩
      · rintro ⟨b, hb, hname⟩
        exact ⟨b, ⟨hb, hne b hname⟩, hname⟩

/-- Of what comes later only new names are kept. -/
theorem firstOfEachName_append (xs ys : List MethodDecl) : firstOfEachName (xs ++ ys) =
    firstOfEachName xs ++ (firstOfEachName ys).filter fun m => m.name ∉ xs.map (·.name) := by
  induction xs with
  | nil => simp [firstOfEachName]
  | cons a xs ih =>
    rw [List.cons_append, firstOfEachName, ih, List.filter_append, List.filter_filter,
      firstOfEachName, List.cons_append]
    congr 2
    apply List.filter_congr
    intro m _
    simp

theorem firstOfEachName_of_pairwise (h : xs.Pairwise fun a b => a.name ≠ b.name) :
    firstOfEachName xs = xs := by
  induction xs with
  | nil => rfl
  | cons a xs ih =>
    obtain ⟨ha, hxs⟩ := List.pairwise_cons.mp h
    rw [firstOfEachName, ih hxs, List.filter_eq_self.mpr]
    intro b hb
    simpa using (ha b hb).symm

@[simp] theorem firstOfEachName_firstOfEachName (xs : List MethodDecl) :
    firstOfEachName (firstOfEachName xs) = firstOfEachName xs :=
  firstOfEachName_of_pairwise (pairwise_firstOfEachName xs)

/-- What comes later may have been sorted out before. -/
theorem firstOfEachName_append_firstOfEachName (xs ys : List MethodDecl) :
    firstOfEachName (xs ++ firstOfEachName ys) = firstOfEachName (xs ++ ys) := by
  rw [firstOfEachName_append, firstOfEachName_append, firstOfEachName_firstOfEachName]

theorem firstOfEachName_append_congr (h : firstOfEachName xs = firstOfEachName ys) :
    firstOfEachName (xs ++ zs) = firstOfEachName (ys ++ zs) := by
  have hnames : ∀ name : String, name ∈ xs.map (·.name) ↔ name ∈ ys.map (·.name) := by
    intro name
    rw [← mem_map_name_firstOfEachName, h, mem_map_name_firstOfEachName]
  rw [firstOfEachName_append, firstOfEachName_append, h]
  simp only [hnames]

/-- Methods whose names are known before are passed over. -/
theorem firstOfEachName_absorb (h : ∀ m ∈ ys, m.name ∈ xs.map (·.name)) :
    firstOfEachName (xs ++ ys ++ zs) = firstOfEachName (xs ++ zs) := by
  apply firstOfEachName_append_congr
  rw [firstOfEachName_append, List.append_right_eq_self, List.filter_eq_nil_iff]
  intro m hm
  simpa using h m (mem_of_mem_firstOfEachName hm)

end FirstOfEachName

variable {c : Codebase} {n m z : String} {unvisited pending : List String}

/-! ### The walk -/

/-- The walk over `pending`, with as many visits as there are names to visit. -/
def visits (c : Codebase) (unvisited pending : List String) : List String :=
  c.walk unvisited.length unvisited pending

@[simp] theorem visits_nil (c : Codebase) (unvisited : List String) :
    c.visits unvisited [] = [] := by
  rw [visits]
  cases unvisited.length <;> rfl

theorem visits_of_not_mem (h : n ∉ unvisited) (pending : List String) :
    c.visits unvisited (n :: pending) = c.visits unvisited pending := by
  rw [visits, visits]
  cases unvisited.length with
  | zero => rfl
  | succ k => simp [walk, h]

theorem visits_of_mem (h : n ∈ unvisited) (pending : List String) :
    c.visits unvisited (n :: pending) =
      n :: c.visits (unvisited.erase n) (c.ancestorsOf n ++ pending) := by
  have hpos := List.length_pos_of_mem h
  obtain ⟨k, hk⟩ : ∃ k, unvisited.length = k + 1 := ⟨unvisited.length - 1, by omega⟩
  have hlen : (unvisited.erase n).length = k := by
    rw [List.length_erase_of_mem h, hk]
    rfl
  rw [visits, visits, hk, hlen]
  simp [walk, h]

/-- Induction along the walk: pending names are passed over or visited, and after a visit less is
left to visit. -/
theorem visits_induction {motive : List String → List String → Prop}
    (nil : ∀ unvisited, motive unvisited [])
    (skip : ∀ unvisited n pending, n ∉ unvisited → motive unvisited pending →
      motive unvisited (n :: pending))
    (visit : ∀ unvisited n pending, n ∈ unvisited →
      (∀ rest later, rest.length < unvisited.length → motive rest later) →
      motive unvisited (n :: pending)) :
    ∀ unvisited pending, motive unvisited pending := by
  intro unvisited
  induction hk : unvisited.length using Nat.strongRecOn generalizing unvisited with
  | _ k ih =>
    intro pending
    induction pending with
    | nil => exact nil unvisited
    | cons n pending ihp =>
      by_cases hn : n ∈ unvisited
      · exact visit unvisited n pending hn fun rest later hlt => ih _ (hk ▸ hlt) rest rfl later
      · exact skip unvisited n pending hn ihp

theorem length_erase_lt (h : n ∈ unvisited) : (unvisited.erase n).length < unvisited.length := by
  have := List.length_pos_of_mem h
  rw [List.length_erase_of_mem h]
  omega

/-- What is pending later is walked over with what the earlier part has left unvisited. -/
theorem visits_append (c : Codebase) (unvisited first second : List String) :
    c.visits unvisited (first ++ second) = c.visits unvisited first ++
      c.visits (unvisited.diff (c.visits unvisited first)) second := by
  induction unvisited, first using visits_induction with
  | nil unvisited => simp
  | skip unvisited n pending hn ih =>
    rw [List.cons_append, visits_of_not_mem hn, visits_of_not_mem hn, ih]
  | visit unvisited n pending hn ih =>
    rw [List.cons_append, visits_of_mem hn, visits_of_mem hn, ← List.append_assoc,
      ih _ _ (length_erase_lt hn), List.diff_cons]
    rfl

/-- Visited names were unvisited before, and are reached from what was pending. -/
theorem of_mem_visits : ∀ unvisited pending : List String, z ∈ c.visits unvisited pending →
    z ∈ unvisited ∧ ∃ p ∈ pending, c.Reaches p z := by
  intro unvisited pending
  induction unvisited, pending using visits_induction with
  | nil unvisited => simp
  | skip unvisited n pending hn ih =>
    rw [visits_of_not_mem hn]
    intro hz
    obtain ⟨hz, p, hp, hreach⟩ := ih hz
    exact ⟨hz, p, List.mem_cons_of_mem _ hp, hreach⟩
  | visit unvisited n pending hn ih =>
    rw [visits_of_mem hn, List.mem_cons]
    rintro (rfl | hz)
    · exact ⟨hn, z, List.mem_cons_self, .refl⟩
    · obtain ⟨hz, p, hp, hreach⟩ := ih _ _ (length_erase_lt hn) hz
      refine ⟨List.mem_of_mem_erase hz, ?_⟩
      rcases List.mem_append.mp hp with hp | hp
      · exact ⟨n, List.mem_cons_self, hreach.head hp⟩
      · exact ⟨p, List.mem_cons_of_mem _ hp, hreach⟩

/-! ### Methods by name -/

theorem lineage_eq_visits (c : Codebase) (n : String) : c.lineage n = c.visits c.names [n] := by
  rw [lineage, visits, names, List.length_map, size]

/-- The method called `m` that `n` declares itself. -/
def own? (c : Codebase) (m n : String) : Option MethodDecl := (c.ownMethods n).find? (·.name = m)

/-- The method called `m` that is visible on `n`. -/
def visible? (c : Codebase) (m n : String) : Option MethodDecl :=
  (c.visibleMethods n).find? (·.name = m)

theorem visible?_eq_findSome? (c : Codebase) (m n : String) :
    c.visible? m n = (c.visits c.names [n]).findSome? (c.own? m) := by
  rw [visible?, visibleMethods, find?_firstOfEachName, List.find?_flatMap, lineage_eq_visits]
  rfl

theorem find?_eq_none_of_not_mem (h : n ∉ c.names) : c.find? n = none := by
  rw [← contains_iff_mem_names, contains, Bool.not_eq_true, Option.isSome_eq_false_iff,
    Option.isNone_iff_eq_none] at h
  exact h

theorem visibleMethods_of_not_mem (h : n ∉ c.names) : c.visibleMethods n = [] := by
  rw [visibleMethods, lineage_eq_visits, visits_of_not_mem h, visits_nil]
  rfl

theorem methods_of_view_eq_ok {v : ClassView} (h : c.view n = .ok v) :
    v.methods = c.visibleMethods n := by
  rw [view] at h
  split at h
  · cases h
  · cases h
    rfl

theorem declaringClass_of_own? {d : MethodDecl} (h : c.own? m n = some d) :
    d.declaringClass = n := by
  have hmem := List.mem_of_find?_eq_some h
  rw [ownMethods] at hmem
  split at hmem
  · exact absurd hmem List.not_mem_nil
  · obtain ⟨d', -, rfl⟩ := List.mem_map.mp hmem
    rfl

theorem exists_of_view_eq_ok {v : ClassView} (h : c.view n = .ok v) :
    ∃ d, c.find? n = some d ∧ v = ⟨d.name, d.kind, d.parent, d.interfaces, d.docComment,
      c.visibleMethods n⟩ := by
  rw [view] at h
  split at h
  · cases h
  · rename_i d hd
    cases h
    exact ⟨d, hd, rfl⟩

theorem ownMethods_of_find? {d : ClassDecl} (hd : c.find? n = some d) :
    c.ownMethods n = d.methods.map ({ · with declaringClass := n }) := by
  rw [ownMethods, hd]

theorem own?_eq {d : ClassDecl} (hd : c.find? n = some d) (m : String) :
    c.own? m n = (d.methods.find? (·.name = m)).map ({ · with declaringClass := n }) := by
  rw [own?, ownMethods_of_find? hd, List.find?_map]
  rfl

theorem visible?_of_own? {md : MethodDecl} (h : c.own? m n = some md) :
    c.visible? m n = some md := by
  have hmem : n ∈ c.names := by
    by_contra hout
    rw [own?, ownMethods, find?_eq_none_of_not_mem hout] at h
    cases h
  rw [visible?_eq_findSome?, visits_of_mem hmem, List.findSome?_cons, h]

/-- A method that is visible on a class and declared there is the first of its name in the
declaration. -/
theorem visible?_and_declared_iff {d : ClassDecl} (hd : c.find? n = some d) {md : MethodDecl} :
    c.visible? m n = some md ∧ md.declaringClass = n ↔
      ∃ first, d.methods.find? (·.name = m) = some first ∧
        { first with declaringClass := n } = md := by
  rw [← Option.map_eq_some_iff, ← own?_eq hd]
  constructor
  · rintro ⟨hvisible, hdecl⟩
    rw [visible?_eq_findSome?] at hvisible
    obtain ⟨z, -, hown⟩ := List.exists_of_findSome?_eq_some hvisible
    rw [← hdecl, declaringClass_of_own? hown]
    exact hown
  · intro hown
    exact ⟨visible?_of_own? hown, declaringClass_of_own? hown⟩

theorem visible?_of_mem {md : MethodDecl} (h : md ∈ c.visibleMethods n) :
    c.visible? md.name n = some md :=
  find?_of_mem MethodDecl.name (pairwise_firstOfEachName _) h

/-! ### One level at a time -/

/-- A method list that is told one level at a time: own methods, then those visible on the
ancestors, and of these the first of each name. -/
def Layered (c : Codebase) (n : String) : Prop :=
  c.visibleMethods n =
    firstOfEachName (c.ownMethods n ++ (c.ancestorsOf n).flatMap c.visibleMethods)

/-- Every name that is visible on `z` is among those of `before`. -/
def KnownIn (c : Codebase) (before : List MethodDecl) (z : String) : Prop :=
  ∀ m ∈ c.visibleMethods z, m.name ∈ before.map (·.name)

theorem KnownIn.append {before : List MethodDecl} (h : c.KnownIn before z)
    (after : List MethodDecl) : c.KnownIn (before ++ after) z := by
  intro m hm
  rw [List.map_append]
  exact List.mem_append_left _ (h m hm)

/-- What is visible further up has a name that is visible here. -/
theorem knownIn_visibleMethods (hlayered : ∀ z, c.Reaches n z → c.Layered z)
    (hz : c.Reaches n z) : c.KnownIn (c.visibleMethods n) z := by
  induction hz with
  | refl => exact fun m hm => List.mem_map_of_mem hm
  | @tail b a hb ha ih =>
    intro m hm
    have hbelow : m.name ∈ (c.visibleMethods b).map (·.name) := by
      rw [hlayered b hb, mem_map_name_firstOfEachName, List.map_append]
      apply List.mem_append_right
      exact List.mem_map_of_mem (List.mem_flatMap.mpr ⟨a, ha, hm⟩)
    obtain ⟨m', hm', hname⟩ := List.mem_map.mp hbelow
    rw [← hname]
    exact ih m' hm'

/-- The walk collects what the levels tell. Names that it passes over do no harm, as long as all
that is visible on them is known before: `before` is what has been collected so far. -/
theorem firstOfEachName_visits (c : Codebase) : ∀ unvisited pending : List String,
    ∀ before : List MethodDecl, (∀ p ∈ pending, c.Grounded p) →
    (∀ p ∈ pending, ∀ z, c.Reaches p z → c.Layered z) →
    (∀ p ∈ pending, ∀ z, c.Reaches p z → z ∉ unvisited → c.KnownIn before z) →
    firstOfEachName (before ++ (c.visits unvisited pending).flatMap c.ownMethods) =
      firstOfEachName (before ++ pending.flatMap c.visibleMethods) := by
  intro unvisited pending
  induction unvisited, pending using visits_induction with
  | nil unvisited =>
    intros
    rw [visits_nil]
    rfl
  | skip unvisited n pending hn ih =>
    intro before hground hlayered hknown
    rw [visits_of_not_mem hn, List.flatMap_cons, ← List.append_assoc,
      firstOfEachName_absorb (hknown n List.mem_cons_self n .refl hn)]
    exact ih before (fun p hp => hground p (List.mem_cons_of_mem _ hp))
      (fun p hp => hlayered p (List.mem_cons_of_mem _ hp))
      (fun p hp => hknown p (List.mem_cons_of_mem _ hp))
  | visit unvisited n pending hn ih =>
    intro before hground hlayered hknown
    have hself := hlayered n List.mem_cons_self
    have herase := length_erase_lt hn
    -- the ancestors of a visited name: the name itself is not among what they reach
    have hlevel : firstOfEachName ((before ++ c.ownMethods n) ++
          (c.visits (unvisited.erase n) (c.ancestorsOf n)).flatMap c.ownMethods) =
        firstOfEachName ((before ++ c.ownMethods n) ++
          (c.ancestorsOf n).flatMap c.visibleMethods) := by
      refine ih _ _ herase _ (fun a ha => (hground n List.mem_cons_self).of_extends ha)
        (fun a ha z hz => hself z (hz.head ha)) fun a ha z hz hout => ?_
      refine (hknown n List.mem_cons_self z (hz.head ha) fun hin => hout ?_).append _
      refine (List.mem_erase_of_ne ?_).mpr hin
      rintro rfl
      exact (hground z List.mem_cons_self).not_transGen_self (TransGen.head' ha hz)
    have hvisited : firstOfEachName (before ++
          (n :: c.visits (unvisited.erase n) (c.ancestorsOf n)).flatMap c.ownMethods) =
        firstOfEachName (before ++ c.visibleMethods n) := by
      rw [List.flatMap_cons, ← List.append_assoc, hlevel, List.append_assoc, hself n .refl,
        firstOfEachName_append_firstOfEachName]
    rw [visits_of_mem hn, visits_append, ← List.cons_append, List.flatMap_append,
      ← List.append_assoc, firstOfEachName_append_congr hvisited, List.flatMap_cons,
      ← List.append_assoc]
    -- what has been visited lies above the name, so all that is visible on it is known by now
    refine ih _ _ (Nat.lt_of_le_of_lt (List.diff_sublist _ _).length_le herase) _
      (fun p hp => hground p (List.mem_cons_of_mem _ hp))
      (fun p hp => hlayered p (List.mem_cons_of_mem _ hp)) fun p hp z hz hout => ?_
    by_cases hin : z ∈ unvisited
    · have hreach : c.Reaches n z := by
        by_cases hzn : z = n
        · rw [hzn]
          exact .refl
        · have hmem : z ∈ c.visits (unvisited.erase n) (c.ancestorsOf n) := by
            by_contra hnot
            exact hout (List.mem_diff_of_mem ((List.mem_erase_of_ne hzn).mpr hin) hnot)
          obtain ⟨-, a, ha, haz⟩ := of_mem_visits _ _ hmem
          exact haz.head ha
      intro m hm
      rw [List.map_append]
      exact List.mem_append_right _ (knownIn_visibleMethods hself hreach m hm)
    · exact (hknown p (List.mem_cons_of_mem _ hp) z hz hin).append _

/-- Where no cycle can be reached, visible methods can be told one level at a time. -/
theorem Grounded.layered (h : c.Grounded n) : ∀ z, c.Reaches n z → c.Layered z := by
  induction h with
  | intro n hacc ih =>
    have hn : c.Layered n := by
      by_cases hmem : n ∈ c.names
      · have hground : c.Grounded n := Acc.intro n hacc
        have hlevel := firstOfEachName_visits c (c.names.erase n) (c.ancestorsOf n)
          (c.ownMethods n) (fun a ha => hacc a ha) (fun a ha => ih a ha) fun a ha z hz hout => by
            intro m hm
            rw [visibleMethods_of_not_mem] at hm
            · exact absurd hm List.not_mem_nil
            · refine fun hin => hout ((List.mem_erase_of_ne ?_).mpr hin)
              rintro rfl
              exact hground.not_transGen_self (TransGen.head' ha hz)
        rw [Layered, visibleMethods, lineage_eq_visits, visits_of_mem hmem, List.append_nil,
          List.flatMap_cons, hlevel]
      · have hnone := find?_eq_none_of_not_mem hmem
        rw [Layered, visibleMethods_of_not_mem hmem, ownMethods, ancestorsOf, hnone]
        rfl
    intro z hz
    rcases hz.cases_head with rfl | ⟨a, ha, haz⟩
    · exact hn
    · exact ih a ha z haz

theorem visibleMethods_eq (h : c.Grounded n) : c.visibleMethods n =
    firstOfEachName (c.ownMethods n ++ (c.ancestorsOf n).flatMap c.visibleMethods) :=
  h.layered n .refl

/-- The method called `m` is the class's own, or else the one visible on the first of its ancestors
that has any. -/
theorem visible?_eq (h : c.Grounded n) (m : String) :
    c.visible? m n = (c.own? m n).or ((c.ancestorsOf n).findSome? (c.visible? m)) := by
  rw [visible?, visibleMethods_eq h, find?_firstOfEachName, List.find?_append, List.find?_flatMap]
  rfl

end Codebase

end ClassSurface
