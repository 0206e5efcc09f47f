import ClassSurface.Codebase.Lineage
import ClassSurface.Registry.Basic
import Mathlib.Logic.Relation

/-! # Proofs.Codebase.Reach — the graph of declared ancestors and the plain walk over it

`Extends` is the relation "names as parent or interface", `Reaches` its closure. A name is
`Resolvable` when everything it reaches is declared and lies on no cycle.

* `firstDefect` walks depth-first with nothing but the path from the root in hand, and stops at the
  first undeclared name, or at the first name that the path holds already.
* `firstDefect_eq_none_iff`: the walk finds nothing exactly on resolvable names that do not lead
  back into the path.
* `Resolvable.grounded`: above a resolvable name every path comes to an end, so resolvable names can
  be reasoned about ancestors first.
-/

namespace ClassSurface.Codebase

open Relation

variable {c : Codebase} {n m a : String}

/-- `n` names `a` as its parent or as one of its interfaces. -/
def Extends (c : Codebase) (n a : String) : Prop := a ∈ c.ancestorsOf n

/-- `m` is `n`, an ancestor that `n` names, or an ancestor of such a one. -/
def Reaches (c : Codebase) : String → String → Prop := ReflTransGen c.Extends

/-- The walk up from `n` comes to an end on every path. -/
def Grounded (c : Codebase) : String → Prop := Acc fun a n => c.Extends n a

/-- Everything that `n` reaches is declared, and none of it lies on a cycle. -/
structure Resolvable (c : Codebase) (n : String) : Prop where
  declared : ∀ m, c.Reaches n m → c.contains m
  acyclic : ∀ m, c.Reaches n m → ¬ TransGen c.Extends m m

/-! ### Declared names -/

theorem contains_iff_find? : c.contains n ↔ ∃ d, c.find? n = some d := by
  rw [contains, Option.isSome_iff_exists]

theorem mem_names_iff_find? : n ∈ c.names ↔ ∃ d, c.find? n = some d := by
  rw [← contains_iff_mem_names, contains_iff_find?]

theorem not_extends_of_find?_eq_none (h : c.find? n = none) : ¬ c.Extends n a := by
  rw [Extends, ancestorsOf, h]
  simp

theorem ancestorsOf_of_find? {d : ClassDecl} (h : c.find? n = some d) :
    c.ancestorsOf n = d.ancestors := by
  rw [ancestorsOf, h]

theorem extends_iff_of_find? {d : ClassDecl} (h : c.find? n = some d) :
    c.Extends n a ↔ a ∈ d.ancestors := by
  rw [Extends, ancestorsOf_of_find? h]

theorem name_eq_of_find? {d : ClassDecl} (h : c.find? n = some d) : d.name = n := by
  have hd := List.find?_some h
  simpa using hd

/-! ### Names without cycles above them -/

theorem Grounded.of_extends (h : c.Grounded n) (ha : c.Extends n a) : c.Grounded a := h.inv ha

theorem Grounded.of_reaches (h : c.Grounded n) (hm : c.Reaches n m) : c.Grounded m := by
  induction hm with
  | refl => exact h
  | tail _ hstep ih => exact ih.of_extends hstep

theorem Grounded.not_transGen_self (h : c.Grounded n) : ¬ TransGen c.Extends n n := by
  induction h with
  | intro n _ ih =>
    intro hcycle
    obtain ⟨a, hna, han⟩ := TransGen.head'_iff.mp hcycle
    exact ih a hna (TransGen.tail' han hna)

/-- Where ancestors can be ranked below the classes that name them, there are no cycles. -/
theorem not_transGen_self_of_rank (rank : String → Nat)
    (h : ∀ d ∈ c.declarations, ∀ a ∈ d.ancestors, rank a < rank d.name) :
    ¬ TransGen c.Extends n n := by
  have hstep : ∀ {n a : String}, c.Extends n a → rank a < rank n := by
    intro n a ha
    cases hd : c.find? n with
    | none => exact absurd ha (not_extends_of_find?_eq_none hd)
    | some d =>
      rw [← name_eq_of_find? hd]
      exact h d (List.mem_of_find?_eq_some hd) a ((extends_iff_of_find? hd).mp ha)
  have hpath : ∀ {z : String}, TransGen c.Extends n z → rank z < rank n := by
    intro z hz
    induction hz with
    | single ha => exact hstep ha
    | tail _ ha ih => exact Nat.lt_trans (hstep ha) ih
  exact fun hcycle => Nat.lt_irrefl _ (hpath hcycle)

/-! ### The plain walk -/

/-- The declared names that a path does not hold. -/
def unvisited (c : Codebase) (path : List String) : List String := c.names.filter (· ∉ path)

theorem length_unvisited_cons_lt {path : List String} (hn : n ∈ c.names) (hp : n ∉ path) :
    (c.unvisited (n :: path)).length < (c.unvisited path).length := by
  have hsplit : c.unvisited (n :: path) = (c.unvisited path).filter (· ≠ n) := by
    rw [unvisited, unvisited, List.filter_filter]
    refine List.filter_congr fun x _ => ?_
    by_cases hx : x = n <;> simp [hx]
  rw [hsplit, List.length_filter_lt_length_iff_exists]
  exact ⟨n, by simp [unvisited, hn, hp], by simp⟩

/-- The first defect that a depth-first walk from `name` meets, parent first and then interfaces in
the order in which they are named: an undeclared name, or a name that `path`, the way from the root
to here, holds already. -/
def firstDefect (c : Codebase) (path : List String) (name : String) : Option ResolveError :=
  match _h : c.find? name with
  | none => some (.source (.unknownClass name))
  | some d =>
    if name ∈ path then some (.reentrant name)
    else d.ancestors.findSome? fun ancestor => firstDefect c (name :: path) ancestor
termination_by (c.unvisited path).length
decreasing_by
  refine length_unvisited_cons_lt ?_ ‹_›
  exact contains_iff_mem_names.mp (contains_iff_find?.mpr ⟨d, _h⟩)

theorem firstDefect_of_find?_eq_none {path : List String} (h : c.find? n = none) :
    c.firstDefect path n = some (.source (.unknownClass n)) := by
  rw [firstDefect]
  split
  · rfl
  · simp_all

theorem firstDefect_of_mem {path : List String} {d : ClassDecl} (h : c.find? n = some d)
    (hp : n ∈ path) : c.firstDefect path n = some (.reentrant n) := by
  rw [firstDefect]
  split
  · simp_all
  · rw [if_pos hp]

theorem firstDefect_of_not_mem {path : List String} {d : ClassDecl} (h : c.find? n = some d)
    (hp : n ∉ path) :
    c.firstDefect path n = d.ancestors.findSome? (c.firstDefect (n :: path)) := by
  rw [firstDefect]
  split
  · simp_all
  · rename_i d' h'
    obtain rfl : d' = d := Option.some.inj (h'.symm.trans h)
    rw [if_neg hp]

/-- Where no cycle can be reached, the table being finite, every path up comes to an end. -/
theorem grounded_of_acyclic_above {path : List String} (hpath : ∀ x ∈ path, TransGen c.Extends x n)
    (hacyc : ∀ m, c.Reaches n m → ¬ TransGen c.Extends m m) : c.Grounded n := by
  -- along the recursion of the walk, whose path cannot be met again without a cycle
  induction path, n using firstDefect.induct (c := c) with
  | case1 path n h => exact Acc.intro n fun a ha => absurd ha (not_extends_of_find?_eq_none h)
  | case2 path n d h hp => exact absurd (hpath n hp) (hacyc n .refl)
  | case3 path n d h hp ih =>
    refine Acc.intro n fun a ha => ih a (fun x hx => ?_) fun m hm => hacyc m (hm.head ha)
    rcases List.mem_cons.mp hx with rfl | hx
    · exact .single ha
    · exact (hpath x hx).tail ha

theorem grounded_of_acyclic (h : ∀ m, c.Reaches n m → ¬ TransGen c.Extends m m) : c.Grounded n :=
  grounded_of_acyclic_above (fun _ hx => absurd hx List.not_mem_nil) h

/-! ### Resolvable names -/

theorem Resolvable.grounded (h : c.Resolvable n) : c.Grounded n := grounded_of_acyclic h.acyclic

theorem Resolvable.contains (h : c.Resolvable n) : c.contains n := h.declared n .refl

theorem Resolvable.of_reaches (h : c.Resolvable n) (hm : c.Reaches n m) : c.Resolvable m :=
  ⟨fun x hx => h.declared x (hm.trans hx), fun x hx => h.acyclic x (hm.trans hx)⟩

theorem Resolvable.of_extends (h : c.Resolvable n) (ha : c.Extends n a) : c.Resolvable a :=
  h.of_reaches (.single ha)

/-- A declared name is resolvable once all its ancestors are. -/
theorem resolvable_of_ancestors (hn : c.contains n) (h : ∀ a, c.Extends n a → c.Resolvable a) :
    c.Resolvable n := by
  have hground : c.Grounded n := Acc.intro n fun a ha => (h a ha).grounded
  refine ⟨fun m hm => ?_, fun m hm => (hground.of_reaches hm).not_transGen_self⟩
  rcases hm.cases_head with rfl | ⟨a, ha, ham⟩
  · exact hn
  · exact (h a ha).declared m ham

/-- The walk finds nothing exactly on the resolvable names that do not lead back into the path. -/
theorem firstDefect_eq_none_iff {path : List String} :
    c.firstDefect path n = none ↔ c.Resolvable n ∧ ∀ x ∈ path, ¬ c.Reaches n x := by
  induction path, n using firstDefect.induct (c := c) with
  | case1 path n h =>
    rw [firstDefect_of_find?_eq_none h]
    refine ⟨fun hs => absurd hs (by simp), fun ⟨hr, _⟩ => ?_⟩
    obtain ⟨d, hd⟩ := contains_iff_find?.mp hr.contains
    rw [h] at hd
    cases hd
  | case2 path n d h hp =>
    rw [firstDefect_of_mem h hp]
    exact ⟨fun hs => absurd hs (by simp), fun ⟨_, hfree⟩ => absurd .refl (hfree n hp)⟩
  | case3 path n d h hp ih =>
    rw [firstDefect_of_not_mem h hp, List.findSome?_eq_none_iff]
    constructor
    · intro hnone
      have hanc : ∀ a, c.Extends n a → c.Resolvable a ∧ ∀ x ∈ n :: path, ¬ c.Reaches a x :=
        fun a ha => (ih a).mp (hnone a ((extends_iff_of_find? h).mp ha))
      refine ⟨resolvable_of_ancestors (contains_iff_find?.mpr ⟨d, h⟩) fun a ha => (hanc a ha).1,
        fun x hx hreach => ?_⟩
      rcases hreach.cases_head with rfl | ⟨a, ha, hax⟩
      · exact hp hx
      · exact (hanc a ha).2 x (List.mem_cons_of_mem _ hx) hax
    · rintro ⟨hr, hfree⟩ a ha
      have ha : c.Extends n a := (extends_iff_of_find? h).mpr ha
      refine (ih a).mpr ⟨hr.of_extends ha, fun x hx hreach => ?_⟩
      rcases List.mem_cons.mp hx with rfl | hx
      · exact hr.acyclic x .refl (TransGen.head' ha hreach)
      · exact hfree x hx (hreach.head ha)

/-- A resolvable name has no defect, seen from names that lie strictly below it. -/
theorem Resolvable.firstDefect_eq_none (h : c.Resolvable n) {path : List String}
    (hpath : ∀ x ∈ path, TransGen c.Extends x n) : c.firstDefect path n = none :=
  firstDefect_eq_none_iff.mpr ⟨h, fun x hx hreach =>
    h.acyclic n .refl (TransGen.trans_right hreach (hpath x hx))⟩

end ClassSurface.Codebase
