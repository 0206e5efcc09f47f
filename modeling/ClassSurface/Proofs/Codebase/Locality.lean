import ClassSurface.Proofs.Codebase.Flattening
import Mathlib.Data.List.Induction
import Mathlib.Data.List.Nodup

/-! # Proofs.Codebase.Locality — what a class has to do with the rest of a codebase

A class depends on the declarations that it reaches, and on nothing else: two codebases that agree
on these show the same class, whatever else they hold and in whatever order.

* `SameAbove`: the codebases have the same declarations for all that a name reaches in the first.
* `visits_eq`: the walks over both take the same course, although they start from different lists
  of names.
* `SameAbove.view_eq`: the class looks the same in both.
-/

namespace ClassSurface.Codebase

variable {c c' : Codebase} {n m : String}

/-! ### No name is declared twice -/

theorem nodup_names_insert (h : c.names.Nodup) (d : ClassDecl) : (c.insert d).names.Nodup := by
  rw [names_insert]
  split
  · exact h
  · rename_i hnew
    exact h.append (List.nodup_singleton _) (List.disjoint_singleton.mpr hnew)

/-- However declarations are inserted, there is one for a name. -/
theorem nodup_names_ofList (ds : List ClassDecl) : (ofList ds).names.Nodup := by
  induction ds using List.reverseRecOn with
  | nil => exact List.nodup_nil
  | append_singleton ds d ih =>
    rw [ofList_concat]
    exact nodup_names_insert ih d

/-- A walk visits nothing twice. -/
theorem nodup_visits {unvisited : List String} (h : unvisited.Nodup) (pending : List String) :
    (c.visits unvisited pending).Nodup := by
  induction unvisited, pending using visits_induction with
  | nil unvisited => simp
  | skip unvisited n pending hn ih =>
    rw [visits_of_not_mem hn]
    exact ih h
  | visit unvisited n pending hn ih =>
    rw [visits_of_mem hn, List.nodup_cons]
    refine ⟨fun hmem => ?_, ih _ _ (length_erase_lt hn) (h.erase n)⟩
    obtain ⟨hmem, -⟩ := of_mem_visits _ _ hmem
    exact (h.mem_erase_iff.mp hmem).1 rfl

/-! ### Codebases that agree above a name -/

/-- The codebases agree on `n` and on all that it reaches: there is the same declaration in both, or
none in either. -/
def SameAbove (c c' : Codebase) (n : String) : Prop :=
  ∀ m, c.Reaches n m → c'.find? m = c.find? m

namespace SameAbove

theorem of_reaches (h : SameAbove c c' n) (hm : c.Reaches n m) : SameAbove c c' m :=
  fun z hz => h z (hm.trans hz)

theorem find?_eq (h : SameAbove c c' n) : c'.find? n = c.find? n := h n .refl

theorem ancestorsOf_eq (h : SameAbove c c' n) : c'.ancestorsOf n = c.ancestorsOf n := by
  rw [ancestorsOf, ancestorsOf, h.find?_eq]

theorem ownMethods_eq (h : SameAbove c c' n) : c'.ownMethods n = c.ownMethods n := by
  rw [ownMethods, ownMethods, h.find?_eq]

theorem mem_names_iff (h : SameAbove c c' n) : n ∈ c'.names ↔ n ∈ c.names := by
  rw [← contains_iff_mem_names, ← contains_iff_mem_names, contains, contains, h.find?_eq]

end SameAbove

/-- The walks over two codebases that agree above all that is pending take the same course, if what
can be reached is yet to visit in both or in neither. -/
theorem visits_eq : ∀ unvisited pending unvisited' : List String, unvisited.Nodup →
    unvisited'.Nodup → (∀ p ∈ pending, SameAbove c c' p) →
    (∀ p ∈ pending, ∀ z, c.Reaches p z → (z ∈ unvisited' ↔ z ∈ unvisited)) →
    c'.visits unvisited' pending = c.visits unvisited pending := by
  intro unvisited pending
  induction unvisited, pending using visits_induction with
  | nil unvisited =>
    intros
    rw [visits_nil, visits_nil]
  | skip unvisited n pending hn ih =>
    intro unvisited' hnd hnd' hsame hmem
    have hn' : n ∉ unvisited' := fun h => hn ((hmem n List.mem_cons_self n .refl).mp h)
    rw [visits_of_not_mem hn, visits_of_not_mem hn']
    exact ih unvisited' hnd hnd' (fun p hp => hsame p (List.mem_cons_of_mem _ hp))
      (fun p hp => hmem p (List.mem_cons_of_mem _ hp))
  | visit unvisited n pending hn ih =>
    intro unvisited' hnd hnd' hsame hmem
    have hn' : n ∈ unvisited' := (hmem n List.mem_cons_self n .refl).mpr hn
    have hself := hsame n List.mem_cons_self
    rw [visits_of_mem hn, visits_of_mem hn', hself.ancestorsOf_eq]
    congr 1
    -- what is pending now is reached from what was pending before
    have hreach : ∀ p ∈ c.ancestorsOf n ++ pending, ∃ q ∈ n :: pending, c.Reaches q p := by
      intro p hp
      rcases List.mem_append.mp hp with hp | hp
      · exact ⟨n, List.mem_cons_self, .single hp⟩
      · exact ⟨p, List.mem_cons_of_mem _ hp, .refl⟩
    refine ih _ _ (length_erase_lt hn) _ (hnd.erase n) (hnd'.erase n) (fun p hp => ?_)
      fun p hp z hz => ?_
    · obtain ⟨q, hq, hqp⟩ := hreach p hp
      exact (hsame q hq).of_reaches hqp
    · obtain ⟨q, hq, hqp⟩ := hreach p hp
      rw [hnd.mem_erase_iff, hnd'.mem_erase_iff, hmem q hq z (hqp.trans hz)]

/-- A walk depends on what there is to visit, not on how this is listed. -/
theorem visits_congr {unvisited unvisited' : List String} (hnd : unvisited.Nodup)
    (hnd' : unvisited'.Nodup) (h : ∀ z, z ∈ unvisited' ↔ z ∈ unvisited) (pending : List String) :
    c.visits unvisited' pending = c.visits unvisited pending :=
  visits_eq unvisited pending unvisited' hnd hnd' (fun _ _ _ _ => rfl) fun _ _ z _ => h z

/-- A class looks the same in codebases that agree above it. -/
theorem SameAbove.view_eq (h : SameAbove c c' n) (hnd : c.names.Nodup) (hnd' : c'.names.Nodup) :
    c'.view n = c.view n := by
  have hlineage : c'.lineage n = c.lineage n := by
    rw [lineage_eq_visits, lineage_eq_visits]
    refine visits_eq _ _ _ hnd hnd' (fun p hp => ?_) fun p hp z hz => ?_
    · rwa [List.mem_singleton.mp hp]
    · rw [List.mem_singleton.mp hp] at hz
      exact (h.of_reaches hz).mem_names_iff
  have hmethods : c'.visibleMethods n = c.visibleMethods n := by
    rw [visibleMethods, visibleMethods, hlineage]
    congr 1
    refine List.flatMap_congr fun m hm => ?_
    rw [lineage_eq_visits] at hm
    obtain ⟨-, p, hp, hreach⟩ := of_mem_visits _ _ hm
    rw [List.mem_singleton.mp hp] at hreach
    exact (h.of_reaches hreach).ownMethods_eq
  rw [view, view, h.find?_eq, hmethods]

end ClassSurface.Codebase
