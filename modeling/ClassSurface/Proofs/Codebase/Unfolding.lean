import ClassSurface.Proofs.Codebase.Reach
import Mathlib.Data.Set.Card

/-! # Proofs.Codebase.Unfolding — a class with a copy of each ancestor for each way to it

Walking up from a class without remembering what was met before unfolds the graph of its ancestors
to a tree. `treeSize` is the number of its nodes. It is one more than those of the trees of parent
and interfaces together (`Grounded.treeSize_eq`), wherever this recursion comes to an end.
-/

namespace ClassSurface.Codebase

variable {c : Codebase} {n : String}

/-- The size of the tree that `name` unfolds to. A name that `path`, the way from the root to here,
holds already is not unfolded again, so that there is a tree for every table. -/
def treeSizeFrom (c : Codebase) (path : List String) (name : String) : Nat :=
  match _h : c.find? name with
  | none => 1
  | some d =>
    if name ∈ path then 1
    else 1 + (d.ancestors.map fun ancestor => treeSizeFrom c (name :: path) ancestor).sum
termination_by (c.unvisited path).length
decreasing_by
  refine length_unvisited_cons_lt ?_ ‹_›
  exact contains_iff_mem_names.mp (contains_iff_find?.mpr ⟨d, _h⟩)

/-- The size of the tree that a class and its ancestors unfold to. -/
def treeSize (c : Codebase) (name : String) : Nat := c.treeSizeFrom [] name

theorem treeSizeFrom_of_not_mem {path : List String} (hn : n ∉ path) :
    c.treeSizeFrom path n = 1 + ((c.ancestorsOf n).map (c.treeSizeFrom (n :: path))).sum := by
  rw [treeSizeFrom]
  split
  · rename_i h
    rw [ancestorsOf, h]
    rfl
  · rename_i d h
    rw [if_neg hn, ancestorsOf_of_find? h]

/-- The way to a class does not matter for its tree, as long as nothing on it lies above the class:
no ancestor leads back to the class, so the trees of the ancestors do not depend on the way either.
-/
theorem Grounded.treeSizeFrom_eq (h : c.Grounded n) :
    ∀ path : List String, (∀ x ∈ path, ¬ c.Reaches n x) →
      c.treeSizeFrom path n = 1 + ((c.ancestorsOf n).map c.treeSize).sum := by
  induction h with
  | intro n hacc ih =>
    have hground : c.Grounded n := Acc.intro n hacc
    intro path hpath
    rw [treeSizeFrom_of_not_mem fun hn => hpath n hn .refl]
    congr 2
    refine List.map_congr_left fun a ha => ?_
    have hfree : ∀ x ∈ n :: path, ¬ c.Reaches a x := by
      intro x hx hreach
      rcases List.mem_cons.mp hx with rfl | hx
      · exact hground.not_transGen_self (Relation.TransGen.head' ha hreach)
      · exact hpath x hx (hreach.head ha)
    rw [ih a ha (n :: path) hfree, treeSize, ih a ha [] (by simp)]

/-- A tree is its root and the trees of the ancestors, one for each time that one is named. -/
theorem Grounded.treeSize_eq (h : c.Grounded n) :
    c.treeSize n = 1 + ((c.ancestorsOf n).map c.treeSize).sum :=
  h.treeSizeFrom_eq [] (by simp)

/-- `count` entries hold the classes `roots` and all their ancestors: with sharing one for each
class that can be reached, without sharing one for each node of the trees. -/
def Holds (c : Codebase) (roots : List String) : Bool → Nat → Prop
  | true, count => {m | ∃ root ∈ roots, c.Reaches root m}.encard = count
  | false, count => count = (roots.map c.treeSize).sum

end ClassSurface.Codebase
