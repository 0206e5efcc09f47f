import ClassSurface.Registry.Basic

/-! # Proofs.Registry.Staircase — the brackets of optional parameters

Parameters are written one after the other, each optional one with an opening bracket before it, and
all brackets are closed at the end. Read as a grammar, an optional parameter has a pair of brackets
around itself and all that follows (`nested`).

* `parameterList_eq_nested`: what is written is what the grammar says.
* `nested_append`: seen from one parameter, the brackets of those before it are all closed after
  everything else.
-/

namespace ClassSurface

/-- Puts an optional parameter, with what follows it, in brackets. -/
def Parameter.enclose (p : Parameter) (s : String) : String :=
  if p.isOptional then "[" ++ s ++ "]" else s

namespace Signature

/-! ### The grammar -/

/-- Parameters that come after others. -/
def following : List Parameter → String
  | [] => ""
  | p :: ps => ", " ++ p.enclose (p.text ++ following ps)

/-- All parameters: the first one is set off by no comma. -/
def nested : List Parameter → String
  | [] => ""
  | p :: ps => p.enclose (p.text ++ following ps)

theorem following_eq {ps : List Parameter} (h : ps ≠ []) : following ps = ", " ++ nested ps := by
  obtain ⟨p, ps, rfl⟩ := List.exists_cons_of_ne_nil h
  rfl

/-! ### Opening and closing -/

/-- A closing bracket for each optional parameter. -/
def closing (ps : List Parameter) : String :=
  String.ofList (List.replicate (ps.countP (·.isOptional)) ']')

/-- The bracket of the first parameter is closed last. -/
theorem closing_cons (p : Parameter) (ps : List Parameter) :
    closing (p :: ps) = closing ps ++ closing [p] := by
  rw [closing, closing, closing, ← List.singleton_append, List.countP_append, Nat.add_comm,
    ← List.replicate_append_replicate, String.ofList_append]

theorem enclose_eq (p : Parameter) (s : String) :
    p.enclose (p.text ++ s) = openedText p ++ s ++ closing [p] := by
  cases h : p.isOptional with
  | true =>
    have hclosing : closing [p] = "]" := by simp [closing, h]
    simp [Parameter.enclose, openedText, h, hclosing, String.append_assoc]
  | false =>
    have hclosing : closing [p] = "" := by simp [closing, h]
    simp [Parameter.enclose, openedText, h, hclosing]

theorem nested_cons {ps : List Parameter} (p : Parameter) (h : ps ≠ []) :
    nested (p :: ps) = openedText p ++ ", " ++ nested ps ++ closing [p] := by
  rw [nested, following_eq h, enclose_eq, ← String.append_assoc]

theorem parameterList_cons {ps : List Parameter} (p : Parameter) (h : ps ≠ []) :
    parameterList (p :: ps) = openedText p ++ ", " ++ parameterList ps ++ closing [p] := by
  have hmap : ps.map openedText ≠ [] := by simpa using h
  rw [parameterList, ← closing, closing_cons, parameterList, ← closing, List.map_cons,
    String.intercalate_cons_of_ne_nil hmap]
  simp only [String.append_assoc]

/-- What is written bracket by bracket is what the grammar says. -/
theorem parameterList_eq_nested (ps : List Parameter) : parameterList ps = nested ps := by
  induction ps with
  | nil => rfl
  | cons p ps ih =>
    by_cases h : ps = []
    · subst h
      rw [nested, following, enclose_eq, parameterList, ← closing, List.map_singleton,
        String.intercalate_singleton, String.append_empty]
    · rw [parameterList_cons p h, ih, nested_cons p h]

example : parameterList [.ofDecl { name := "a" }, .ofDecl { name := "b", isOptional := true },
    .ofDecl { name := "c" }] = " $a, [ $b=null,  $c]" := by
  decide +kernel

/-- The brackets of the parameters before one are opened before it, and closed after all that
follows it. -/
theorem nested_append (before : List Parameter) (p : Parameter) (after : List Parameter) :
    nested (before ++ p :: after) = String.join (before.map (openedText · ++ ", ")) ++
      p.enclose (p.text ++ following after) ++ closing before := by
  induction before with
  | nil => simp [nested, closing]
  | cons q before ih =>
    rw [List.cons_append, nested_cons q (by simp), ih, List.map_cons, String.join_cons,
      closing_cons q before]
    simp only [String.append_assoc]

/-- **The staircase**: a signature is written as its return type, its visibility, what qualifies it
and its name, and its parameters by the nested grammar, in which the bracket of an optional
parameter is closed only after everything that follows. -/
theorem text_nested (s : Signature) (owner : Entry) :
    s.text owner.view.isInterface = s.returnType ++ " " ++ s.visibility.text ++ " " ++
        (if s.isStatic then "static " else "") ++
        (if s.isAbstract ∧ owner.view.kind ≠ .interface then "abstract " else "") ++
        s.name ++ "(" ++ nested s.parameters ++ ")" ∧
      ∀ before p after, s.parameters = before ++ p :: after → p.isOptional = true →
        nested s.parameters = String.join (before.map (openedText · ++ ", ")) ++
          ("[" ++ (p.text ++ following after) ++ "]") ++ closing before := by
  refine ⟨?_, fun before p after hps hp => ?_⟩
  · have habstract : (if s.isAbstract && !owner.view.isInterface then "abstract " else "") =
        if s.isAbstract ∧ owner.view.kind ≠ .interface then "abstract " else "" := by
      simp [ClassView.isInterface]
    rw [text, habstract, parameterList_eq_nested]
  · rw [hps, nested_append, Parameter.enclose, if_pos hp]

/-- A static method of an interface, with an optional parameter between two that are not. -/
def legacy : Signature where
  owner := 0
  name := "legacy"
  declaringClass := "Account"
  visibility := .publicAccess
  isStatic := true
  isAbstract := true
  parameters :=
    [.ofDecl { name := "a" }, .ofDecl { name := "b", isOptional := true }, .ofDecl { name := "c" }]
  returnType := "int"

def account : Entry where
  id := 0
  requested := "Account"
  view := ⟨"Account", .interface, none, [], none, []⟩

theorem text_nested_legacy :
    legacy.text account.view.isInterface = legacy.returnType ++ " " ++ legacy.visibility.text ++
        " " ++ (if legacy.isStatic then "static " else "") ++
        (if legacy.isAbstract ∧ account.view.kind ≠ .interface then "abstract " else "") ++
        legacy.name ++ "(" ++ nested legacy.parameters ++ ")" ∧
      nested legacy.parameters =
        String.join (([.ofDecl { name := "a" }] : List Parameter).map (openedText · ++ ", ")) ++
          ("[" ++ ((Parameter.ofDecl { name := "b", isOptional := true }).text ++
            following [.ofDecl { name := "c" }]) ++ "]") ++ closing [.ofDecl { name := "a" }] := by
  obtain ⟨htext, hbrackets⟩ := text_nested legacy account
  exact ⟨htext, hbrackets [.ofDecl { name := "a" }] _ [.ofDecl { name := "c" }] rfl rfl⟩

end Signature

end ClassSurface
