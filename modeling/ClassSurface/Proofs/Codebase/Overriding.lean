import ClassSurface.Proofs.Codebase.VisibleMethods

/-! # Proofs.Codebase.Overriding — which of several declarations is inherited

A class that does not declare a method takes it from the first of its ancestors that offers it, the
parent first and then the interfaces in the order in which they are named. What is named later is
not asked, even if it leads to a class that overrides the declaration found: an interface may be
named before another one that extends it. So the declaration that is inherited need not be the most
derived one (`area_overridden`); it is, exactly if this happens nowhere on the way to it
(`most_derived_iff`).
-/

namespace ClassSurface.Codebase

open Relation

variable {c : Codebase} {n m z e : String} {f : MethodDecl}

/-- A class that `n` reaches declares `m`. -/
def Offers (c : Codebase) (n m : String) : Prop := ∃ e, c.Reaches n e ∧ c.Declares e m

/-- `e` declares `m`, which `d`, a class above it, may declare too. -/
def Overrides (c : Codebase) (m e d : String) : Prop := c.Declares e m ∧ TransGen c.Extends e d

/-- `z`, which does not declare `m`, takes it from `a`, the first of its ancestors that offers it.
`later` are the ancestors that it names after `a`. -/
def Takes (c : Codebase) (m z a : String) (later : List String) : Prop :=
  ¬ c.Declares z m ∧ ∃ before, c.ancestorsOf z = before ++ a :: later ∧
    (∀ p ∈ before, ¬ c.Offers p m) ∧ c.Offers a m

/-- `z` takes `m` from an ancestor that it names before the interface `b`. -/
def PassesOver (c : Codebase) (m z b : String) : Prop :=
  ∃ d a later, c.find? z = some d ∧ c.Takes m z a later ∧ b ∈ later ∧ b ∈ d.interfaces

/-- The way on which `n` comes by `m` leads through `z`. -/
def ComesBy (c : Codebase) (m : String) : String → String → Prop :=
  ReflTransGen fun z a => ∃ later, c.Takes m z a later

theorem Takes.extends {a : String} {later : List String} (h : c.Takes m z a later) :
    c.Extends z a := by
  obtain ⟨-, before, hanc, -⟩ := h
  unfold Extends
  rw [hanc]
  simp

/-- What is named later than another ancestor is an interface. -/
theorem Takes.passesOver {a b : String} {later : List String} (h : c.Takes m z a later)
    (hb : b ∈ later) : c.PassesOver m z b := by
  obtain ⟨d, hd⟩ := mem_names_iff_find?.mp (mem_names_of_extends h.extends)
  obtain ⟨-, before, hanc, -⟩ := id h
  rw [ancestorsOf_of_find? hd, ClassDecl.ancestors] at hanc
  have htail : b ∈ (before ++ a :: later).tail := by
    cases before with
    | nil => exact hb
    | cons first before => simp [hb]
  rw [← hanc] at htail
  have hint : b ∈ d.interfaces := by
    cases hp : d.parent with
    | none =>
      rw [hp] at htail
      exact List.mem_of_mem_tail htail
    | some parent =>
      rw [hp] at htail
      exact htail
  exact ⟨d, a, later, hd, h, hb, hint⟩

theorem PassesOver.extends {b : String} (h : c.PassesOver m z b) : c.Extends z b := by
  obtain ⟨d, -, -, hd, -, -, hint⟩ := h
  exact (extends_iff_of_find? hd).mpr (List.mem_append_right _ hint)

/-! ### The way to a declaration -/

theorem visible?_isSome_iff : (c.visible? m n).isSome ↔ c.Offers n m := by
  rw [Offers, ← mem_map_name_visibleMethods, visible?, List.find?_isSome]
  simp

theorem visible?_eq_none_iff : c.visible? m n = none ↔ ¬ c.Offers n m := by
  rw [← visible?_isSome_iff, Option.not_isSome_iff_eq_none]

theorem Offers.of_reaches (h : c.Offers z m) (hz : c.Reaches n z) : c.Offers n m := by
  obtain ⟨e, he, hdecl⟩ := h
  exact ⟨e, hz.trans he, hdecl⟩

/-- A visible method is the class's own, or it is taken from an ancestor, on which it is visible. -/
theorem visible?_cases (h : c.Grounded n) (hf : c.visible? m n = some f) :
    (c.Declares n m ∧ f.declaringClass = n) ∨
      ∃ a later, c.Takes m n a later ∧ c.visible? m a = some f := by
  rw [visible?_eq h] at hf
  cases hown : c.own? m n with
  | some f' =>
    rw [hown, Option.some_or] at hf
    cases hf
    exact .inl ⟨own?_isSome_iff.mp (Option.isSome_of_eq_some hown), declaringClass_of_own? hown⟩
  | none =>
    rw [hown, Option.none_or, List.findSome?_eq_some_iff] at hf
    obtain ⟨before, a, later, hanc, ha, hbefore⟩ := hf
    refine .inr ⟨a, later, ⟨own?_eq_none_iff.mp hown, before, hanc, fun p hp => ?_, ?_⟩, ha⟩
    · exact visible?_eq_none_iff.mp (hbefore p hp)
    · exact visible?_isSome_iff.mp (Option.isSome_of_eq_some ha)

/-- The way ends at the class that declares the visible method. -/
theorem comesBy_declaringClass (h : c.Grounded n) (hf : c.visible? m n = some f) :
    c.ComesBy m n f.declaringClass ∧ c.Declares f.declaringClass m := by
  induction h with
  | intro n hacc ih =>
    rcases visible?_cases (Acc.intro n hacc) hf with ⟨hdecl, hn⟩ | ⟨a, later, htakes, ha⟩
    · rw [hn]
      exact ⟨.refl, hdecl⟩
    · obtain ⟨hway, hdecl⟩ := ih a htakes.extends ha
      exact ⟨hway.head ⟨later, htakes⟩, hdecl⟩

/-- What overrides the visible method is reached from an interface that is named too late, by some
class on the way. -/
theorem exists_passesOver (h : c.Grounded n) (hf : c.visible? m n = some f)
    (he : c.Reaches n e) (hover : c.Overrides m e f.declaringClass) :
    ∃ z b, c.ComesBy m n z ∧ c.PassesOver m z b ∧ c.Reaches b e := by
  induction h with
  | intro n hacc ih =>
    have hground : c.Grounded n := Acc.intro n hacc
    obtain ⟨hdecl, habove⟩ := hover
    rcases visible?_cases hground hf with ⟨-, hn⟩ | ⟨a, later, htakes, ha⟩
    · -- nothing that the class reaches lies below it
      rw [hn] at habove
      exact absurd (TransGen.trans_right he habove) hground.not_transGen_self
    · obtain ⟨hnot, before, hanc, hbefore, -⟩ := id htakes
      rcases he.cases_head with rfl | ⟨b, hb, hbe⟩
      · exact absurd hdecl hnot
      · have hb : b ∈ c.ancestorsOf n := hb
        rw [hanc, List.mem_append, List.mem_cons] at hb
        rcases hb with hb | rfl | hb
        · exact absurd ⟨e, hbe, hdecl⟩ (hbefore b hb)
        · obtain ⟨z, b', hway, hrest⟩ := ih b htakes.extends ha hbe
          exact ⟨z, b', hway.head ⟨later, htakes⟩, hrest⟩
        · exact ⟨n, b, .refl, htakes.passesOver hb, hbe⟩

theorem ComesBy.reaches (h : c.ComesBy m n z) : c.Reaches n z := by
  induction h with
  | refl => exact .refl
  | tail _ hstep ih =>
    obtain ⟨later, htakes⟩ := hstep
    exact ih.tail htakes.extends

/-- **When the most derived declaration wins**: let no cycle be reached from a class. A method that
it shows is declared by the class at the end of the way on which it comes by it. No class that it
reaches overrides this declaration exactly if none on the way names, after the ancestor from which
it takes the method, an interface that leads to a class that overrides it. -/
theorem most_derived_iff (c : Codebase) (n : String)
    (hacyclic : ∀ z, c.Reaches n z → ¬ TransGen c.Extends z z) (v : ClassView)
    (hv : c.view n = .ok v) (f : MethodDecl) (hf : f ∈ v.methods) :
    c.ComesBy f.name n f.declaringClass ∧ c.Declares f.declaringClass f.name ∧
      ((∀ e, c.Reaches n e → ¬ c.Overrides f.name e f.declaringClass) ↔
        ∀ z b, c.ComesBy f.name n z → c.PassesOver f.name z b →
          ∀ e, c.Reaches b e → ¬ c.Overrides f.name e f.declaringClass) := by
  have hground : c.Grounded n := grounded_of_acyclic hacyclic
  rw [methods_of_view_eq_ok hv] at hf
  have hvisible := visible?_of_mem hf
  obtain ⟨hway, hdecl⟩ := comesBy_declaringClass hground hvisible
  refine ⟨hway, hdecl, fun hnone z b hz hb e he => ?_, fun hlate e he hover => ?_⟩
  · exact hnone e (hz.reaches.trans (he.head hb.extends))
  · obtain ⟨z, b, hz, hb, hbe⟩ := exists_passesOver hground hvisible he hover
    exact hlate z b hz hb e hbe hover

/-- An interface extends another one and narrows its method; a class names both. -/
def solids : Codebase := .ofList
  [{ name := "Shape", kind := .interface
     methods := [{ name := "area", returnType := some "number" }] },
    { name := "Solid", kind := .interface, interfaces := ["Shape"]
      methods := [{ name := "area", returnType := some "float" }, { name := "volume" }] },
    { name := "Cube", interfaces := ["Shape", "Solid"] },
    { name := "Ball", interfaces := ["Solid", "Shape"] }]

theorem not_transGen_solids (n : String) : ¬ TransGen solids.Extends n n :=
  not_transGen_self_of_rank ["Shape", "Solid", "Cube", "Ball"].idxOf (by decide +kernel)

/-- A class shows the method that is visible on it. -/
theorem exists_shown_of_visible? {d : String}
    (h : (c.visible? m n).map (·.declaringClass) = some d) :
    ∃ v f, c.view n = .ok v ∧ f ∈ v.methods ∧ f.name = m ∧ f.declaringClass = d := by
  obtain ⟨f, hf, hdecl⟩ := Option.map_eq_some_iff.mp h
  have hmem : f ∈ c.visibleMethods n := List.mem_of_find?_eq_some hf
  have hname : f.name = m := by simpa using List.find?_some hf
  rw [← methodsShown_eq, methodsShown] at hmem
  split at hmem
  · rename_i v hv
    exact ⟨v, f, hv, hmem, hname, hdecl⟩
  · simp at hmem

/-- A ball names the narrower interface first, and passes over the wider one without harm. -/
theorem most_derived_iff_ball : ∃ v f,
    (∀ z, solids.Reaches "Ball" z → ¬ TransGen solids.Extends z z) ∧
    solids.view "Ball" = .ok v ∧ f ∈ v.methods ∧ f.name = "area" ∧ f.declaringClass = "Solid" ∧
    solids.ComesBy f.name "Ball" f.declaringClass ∧ solids.PassesOver f.name "Ball" "Shape" ∧
    ∀ e, solids.Reaches "Ball" e → ¬ solids.Overrides f.name e f.declaringClass := by
  have hacyclic : ∀ z, solids.Reaches "Ball" z → ¬ TransGen solids.Extends z z :=
    fun z _ => not_transGen_solids z
  obtain ⟨v, f, hv, hf, hname, hdecl⟩ : ∃ v f, solids.view "Ball" = .ok v ∧ f ∈ v.methods ∧
      f.name = "area" ∧ f.declaringClass = "Solid" :=
    exists_shown_of_visible? (by decide +kernel)
  obtain ⟨hway, -, hiff⟩ := most_derived_iff solids "Ball" hacyclic v hv f hf
  have htakes : solids.Takes "area" "Ball" "Solid" ["Shape"] :=
    ⟨by decide +kernel, [], by decide +kernel, by simp, "Solid", .refl, by decide +kernel⟩
  refine ⟨v, f, hacyclic, hv, hf, hname, hdecl, hway, ?_, hiff.mpr ?_⟩
  · rw [hname]
    exact htakes.passesOver (List.mem_singleton.mpr rfl)
  · rw [hname, hdecl]
    rintro z b - - e - ⟨hdeclares, habove⟩
    -- of the two classes that declare the method, one has nothing above it
    obtain ⟨a, ha, -⟩ := TransGen.head'_iff.mp habove
    have honly : ∀ e ∈ solids.names, solids.Declares e "area" → e = "Solid" ∨
        solids.ancestorsOf e = [] := by
      decide +kernel
    rcases honly e hdeclares.mem_names hdeclares with rfl | hnone
    · exact not_transGen_solids _ habove
    · unfold Extends at ha
      rw [hnone] at ha
      exact List.not_mem_nil ha

/-- A cube names the wider interface first and inherits its method, although the narrower one, which
it names too, overrides it. -/
theorem area_overridden : ∃ v f,
    (∀ z, solids.Reaches "Cube" z → ¬ TransGen solids.Extends z z) ∧
    solids.view "Cube" = .ok v ∧ f ∈ v.methods ∧ f.name = "area" ∧ f.declaringClass = "Shape" ∧
    solids.Reaches "Cube" "Solid" ∧ solids.Overrides f.name "Solid" f.declaringClass := by
  obtain ⟨v, f, hv, hf, hname, hdecl⟩ : ∃ v f, solids.view "Cube" = .ok v ∧ f ∈ v.methods ∧
      f.name = "area" ∧ f.declaringClass = "Shape" :=
    exists_shown_of_visible? (by decide +kernel)
  have hcube : solids.Extends "Cube" "Solid" := by
    unfold Extends
    decide +kernel
  have hsolid : solids.Extends "Solid" "Shape" := by
    unfold Extends
    decide +kernel
  refine ⟨v, f, fun z _ => not_transGen_solids z, hv, hf, hname, hdecl, .single hcube, ?_⟩
  rw [hname, hdecl]
  exact ⟨by decide +kernel, .single hsolid⟩

end ClassSurface.Codebase
