import ClassSurface.DocBlock.Reader
import ClassSurface.Proofs.Text.Words
import Mathlib.Data.List.TakeWhile

/-! # Proofs.DocBlock.Grammar — what a tag gives, by its words

`Gives tag ws note` is the grammar of tags, on the words of a body. Every tag that is understood
gives one annotation, whatever its words (`exists_gives`), and it is the one that is read, however
the words are laid out (`Gives.annotation?_eq`).
-/

namespace ClassSurface.DocBlock

open Text

/-! ### The grammar -/

/-- A variable: any number of marks, then a dollar sign. -/
def IsVariable (w : List Char) : Prop :=
  ∃ marks rest, w = marks ++ '$' :: rest ∧ ∀ c ∈ marks, c = '&' ∨ c = '.'

/-- `name` is what the variable `w` names: what follows its marks and all dollar signs. -/
def Names (w name : List Char) : Prop :=
  ∃ marks dollars, w = marks ++ '$' :: (dollars ++ name) ∧ (∀ c ∈ marks, c = '&' ∨ c = '.') ∧
    (∀ c ∈ dollars, c = '$') ∧ name.head? ≠ some '$'

/-- An identifier: a letter or underscore, then letters, numerals and underscores. -/
def IsIdentifier (w : List Char) : Prop :=
  ∃ c s, w = c :: s ∧ (isLetter c = true ∨ c = '_') ∧
    ∀ d ∈ s, isLetter d = true ∨ isNumeral d = true ∨ d = '_'

/-- The words are `modifiers`, then `name(args` with or without a blank before the parenthesis,
which is the first one, then `rest`. -/
structure MethodSignature (ws modifiers : List (List Char)) (name args : List Char)
    (rest : List (List Char)) : Prop where
  spelling : ws = modifiers ++ (name ++ '(' :: args) :: rest ∨
    ws = modifiers ++ name :: ('(' :: args) :: rest
  first : ∀ w ∈ modifiers, '(' ∉ w
  identifier : IsIdentifier name

/-- The modifiers with a type among them: `void` if there are none, or `static` alone. -/
def withType (modifiers : List (List Char)) : List (List Char) :=
  if modifiers = [] ∨ modifiers = ["static".toList] then modifiers ++ ["void".toList] else modifiers

theorem withType_ne_nil (modifiers : List (List Char)) : withType modifiers ≠ [] := by
  rw [withType]
  split
  · simp
  · rename_i h
    exact fun hnil => h (.inl hnil)

/-- What a tag gives that has the words `ws` in its body. -/
inductive Gives : (tag : List Char) → (ws : List (List Char)) → Annotation → Prop where
  | paramAlone : Gives "param".toList [] (.param "" "")
  | paramNamed {w name : List Char} {ws : List (List Char)} (hname : Names w name) :
      Gives "param".toList (w :: ws) (.param "" (String.ofList name))
  | paramTyped {t : List Char} {ws : List (List Char)} (ht : ¬ IsVariable t)
      (hnext : ∀ w ∈ ws.head?, ¬ IsVariable w) :
      Gives "param".toList (t :: ws) (.param (String.ofList t) "")
  | paramInFull {t w name : List Char} {ws : List (List Char)} (ht : ¬ IsVariable t)
      (hname : Names w name) :
      Gives "param".toList (t :: w :: ws) (.param (String.ofList t) (String.ofList name))
  | returnAlone : Gives "return".toList [] (.result "")
  | returnTyped {t : List Char} {ws : List (List Char)} :
      Gives "return".toList (t :: ws) (.result (String.ofList t))
  | method {ws modifiers : List (List Char)} {name args : List Char} {rest : List (List Char)}
      (h : MethodSignature ws modifiers name args rest) :
      Gives "method".toList ws (.method (String.ofList name)
        (String.ofList (unwords (withType modifiers ++ (name ++ '(' :: args) :: rest))))
  | methodMalformed {ws : List (List Char)}
      (h : ∀ modifiers name args rest, ¬ MethodSignature ws modifiers name args rest) :
      Gives "method".toList ws (.invalid (.malformed "method" (String.ofList (unwords ws))))

/-- The tags that are understood. -/
def understood : List (List Char) := ["param".toList, "return".toList, "method".toList]

/-! ### Variables and identifiers -/

theorem isMark_iff {c : Char} : isMark c = true ↔ c = '&' ∨ c = '.' := by
  simp [isMark]

theorem dropWhile_isMark {marks rest : List Char} (h : ∀ c ∈ marks, c = '&' ∨ c = '.') :
    (marks ++ '$' :: rest).dropWhile isMark = '$' :: rest := by
  rw [List.dropWhile_append_of_pos fun c hc => isMark_iff.mpr (h c hc)]
  exact List.dropWhile_cons_of_neg (by decide)

theorem exists_names {w : List Char} (h : isVariable w = true) : ∃ name, Names w name := by
  have hhead : (w.dropWhile isMark).head? = some '$' := by simpa [isVariable] using h
  obtain ⟨rest, hrest⟩ := List.head?_eq_some_iff.mp hhead
  refine ⟨rest.dropWhile (· == '$'), w.takeWhile isMark, rest.takeWhile (· == '$'), ?_, ?_, ?_, ?_⟩
  · rw [List.takeWhile_append_dropWhile, ← hrest, List.takeWhile_append_dropWhile]
  · exact fun c hc => isMark_iff.mp (List.mem_takeWhile_imp hc)
  · exact fun c hc => by simpa using List.mem_takeWhile_imp hc
  · intro hdollar
    have hnot := List.head?_dropWhile_not (· == '$') rest
    rw [hdollar] at hnot
    simp at hnot

theorem Names.isVariable {w name : List Char} (h : Names w name) : IsVariable w := by
  obtain ⟨marks, dollars, hw, hmarks, -, -⟩ := h
  exact ⟨marks, dollars ++ name, hw, hmarks⟩

theorem isVariable_iff {w : List Char} : isVariable w = true ↔ IsVariable w := by
  constructor
  · intro h
    obtain ⟨name, hname⟩ := exists_names h
    exact hname.isVariable
  · rintro ⟨marks, rest, rfl, hmarks⟩
    rw [isVariable, dropWhile_isMark hmarks]
    rfl

theorem isVariable_eq_false {w : List Char} (h : ¬ IsVariable w) : isVariable w = false :=
  Bool.eq_false_iff.mpr (mt isVariable_iff.mp h)

theorem Names.variableName_eq {w name : List Char} (h : Names w name) : variableName w = name := by
  obtain ⟨marks, dollars, rfl, hmarks, hdollars, hname⟩ := h
  have hdrop : ∀ c ∈ '$' :: dollars, (c == '$') = true := by simpa using hdollars
  rw [variableName, dropWhile_isMark hmarks, ← List.cons_append,
    List.dropWhile_append_of_pos hdrop]
  cases name with
  | nil => rfl
  | cons c s => exact List.dropWhile_cons_of_neg (by simpa using hname)

theorem isIdentifier_iff {w : List Char} : isIdentifier w = true ↔ IsIdentifier w := by
  cases w with
  | nil => simp [isIdentifier, IsIdentifier]
  | cons c s =>
    simp only [isIdentifier, Bool.and_eq_true, Bool.or_eq_true, beq_iff_eq, List.all_eq_true,
      or_assoc]
    constructor
    · rintro ⟨hc, hs⟩
      exact ⟨c, s, rfl, hc, hs⟩
    · rintro ⟨_, _, ⟨rfl, rfl⟩, hc, hs⟩
      exact ⟨hc, hs⟩

theorem IsIdentifier.ne_nil {w : List Char} (h : IsIdentifier w) : w ≠ [] := by
  obtain ⟨c, s, rfl, -⟩ := h
  simp

theorem IsIdentifier.not_mem {w : List Char} (h : IsIdentifier w) : '(' ∉ w := by
  have hletter : isLetter '(' = false := by decide +kernel
  have hnumeral : isNumeral '(' = false := by decide +kernel
  obtain ⟨c, s, rfl, hc, hs⟩ := h
  intro hmem
  rcases List.mem_cons.mp hmem with rfl | hmem
  · simp [hletter] at hc
  · simpa [hletter, hnumeral] using hs _ hmem

/-! ### Bodies -/

variable {body : List Char}

/-- The first parenthesis cuts the words of a body in two. -/
theorem exists_call {ws : List (List Char)} (h : '(' ∈ unwords ws) :
    ∃ before stem args after, ws = before ++ (stem ++ '(' :: args) :: after ∧
      (∀ w ∈ before, '(' ∉ w) ∧ '(' ∉ stem := by
  have hfound : (ws.find? ('(' ∈ ·)).isSome := by
    rcases mem_unwords h with hspace | ⟨w, hw, hc⟩
    · exact absurd hspace (by decide)
    · exact List.find?_isSome.mpr ⟨w, hw, by simpa using hc⟩
  obtain ⟨w, hw⟩ := Option.isSome_iff_exists.mp hfound
  obtain ⟨hc, before, after, rfl, hbefore⟩ := List.find?_eq_some_iff_append.mp hw
  obtain ⟨stem, args, rfl, hstem⟩ := List.eq_append_cons_of_mem (by simpa using hc : '(' ∈ w)
  exact ⟨before, stem, args, after, rfl, by simpa using hbefore, hstem⟩

/-- The text of a body at its first parenthesis: what stands before it, and the rest. -/
theorem span_unwords {before : List (List Char)} {stem : List Char}
    (hbefore : ∀ w ∈ before, '(' ∉ w) (hstem : '(' ∉ stem) (args : List Char)
    (after : List (List Char)) :
    (unwords (before ++ (stem ++ '(' :: args) :: after)).takeWhile (· != '(') =
        unwords (before ++ [stem]) ∧
      (unwords (before ++ (stem ++ '(' :: args) :: after)).dropWhile (· != '(') =
        unwords (('(' :: args) :: after) := by
  have hlead : ∀ c ∈ unwords (before ++ [stem]), (c != '(') = true := by
    intro c hc
    rw [bne_iff_ne]
    rintro rfl
    rcases mem_unwords hc with hspace | ⟨w, hw, hc⟩
    · exact absurd hspace (by decide)
    · rcases List.mem_append.mp hw with hw | hw
      · exact hbefore w hw hc
      · rw [List.mem_singleton.mp hw] at hc
        exact hstem hc
  obtain ⟨rest, hrest⟩ := isPrefix_unwords ('(' :: args) after
  rw [unwords_cut, ← hrest, List.takeWhile_append_of_pos hlead, List.dropWhile_append_of_pos hlead]
  simp

/-- A method tag is read off the words before the first parenthesis. -/
theorem readMethod_of_call {before : List (List Char)} {stem args : List Char}
    {after leading : List (List Char)}
    (hbody : words body = before ++ (stem ++ '(' :: args) :: after)
    (hbefore : ∀ w ∈ before, '(' ∉ w) (hstem : '(' ∉ stem)
    (hleading : words (unwords (before ++ [stem])) = leading) :
    readMethod body = match leading.getLast? with
      | none => .invalid (.malformed "method" (String.ofList (unwords (words body))))
      | some name =>
        if isIdentifier name then
          .method (String.ofList name) (String.ofList (unwords (withType leading.dropLast) ++
            ' ' :: name ++ unwords (('(' :: args) :: after)))
        else .invalid (.malformed "method" (String.ofList (unwords (words body)))) := by
  obtain ⟨htake, hdrop⟩ := span_unwords hbefore hstem args after
  obtain ⟨rest, hrest⟩ := isPrefix_unwords ('(' :: args) after
  rw [← hbody] at htake hdrop
  rw [readMethod]
  simp only [hdrop, htake, hleading]
  rw [← hrest]
  rfl

/-- A signature is cut at its first parenthesis into a stem and the rest, and what stands before the
parenthesis are its modifiers and its name. -/
theorem MethodSignature.exists_call {ws modifiers : List (List Char)} {name args : List Char}
    {rest : List (List Char)} (h : MethodSignature ws modifiers name args rest)
    (hws : ∀ w ∈ ws, IsWord w) :
    ∃ before stem, ws = before ++ (stem ++ '(' :: args) :: rest ∧ (∀ w ∈ before, '(' ∉ w) ∧
      '(' ∉ stem ∧ words (unwords (before ++ [stem])) = modifiers ++ [name] := by
  obtain ⟨hspelling, hfirst, hname⟩ := h
  have hnot := hname.not_mem
  -- the name is the stem, or the stem is empty and the name is the word before it
  rcases hspelling with rfl | rfl
  · refine ⟨modifiers, name, rfl, hfirst, hnot, ?_⟩
    refine words_unwords_of_isWord fun w hw => ?_
    rcases List.mem_append.mp hw with hw | hw
    · exact hws w (List.mem_append_left _ hw)
    · rw [List.mem_singleton.mp hw]
      exact (hws (name ++ '(' :: args) (by simp)).of_append hname.ne_nil
  · refine ⟨modifiers ++ [name], [], by simp, fun w hw => ?_, List.not_mem_nil, ?_⟩
    · rcases List.mem_append.mp hw with hw | hw
      · exact hfirst w hw
      · rw [List.mem_singleton.mp hw]
        exact hnot
    · have hlead : ∀ w ∈ modifiers ++ [name], IsWord w := fun w hw => hws w (by grind)
      have hne : modifiers ++ [name] ≠ [] := by simp
      rw [unwords_append hne (List.cons_ne_nil [] []), words_append_blank (by decide),
        words_unwords_of_isWord hlead]
      simp [words]

theorem readMethod_of_signature {ws modifiers : List (List Char)} {name args : List Char}
    {rest : List (List Char)} (h : MethodSignature ws modifiers name args rest)
    (hbody : words body = ws) (hws : ∀ w ∈ ws, IsWord w) :
    readMethod body = .method (String.ofList name)
      (String.ofList (unwords (withType modifiers ++ (name ++ '(' :: args) :: rest))) := by
  obtain ⟨before, stem, hcall, hbefore, hstem, hleading⟩ := h.exists_call hws
  have htext : unwords (withType modifiers ++ (name ++ '(' :: args) :: rest) =
      unwords (withType modifiers) ++ ' ' :: name ++ unwords (('(' :: args) :: rest) := by
    rw [unwords_cut, unwords_append (withType_ne_nil _) (by simp), unwords_singleton]
  rw [readMethod_of_call (hbody.trans hcall) hbefore hstem hleading, List.getLast?_concat,
    List.dropLast_concat, htext]
  exact if_pos (isIdentifier_iff.mpr h.identifier)

/-- Words with an identifier right before the first parenthesis are a signature. -/
theorem methodSignature_of_call {before : List (List Char)} {stem args name : List Char}
    {after : List (List Char)} (hws : ∀ w ∈ before ++ (stem ++ '(' :: args) :: after, IsWord w)
    (hbefore : ∀ w ∈ before, '(' ∉ w)
    (hname : (words (unwords (before ++ [stem]))).getLast? = some name)
    (hidentifier : IsIdentifier name) :
    ∃ modifiers, MethodSignature (before ++ (stem ++ '(' :: args) :: after) modifiers name args
      after := by
  have hlead : ∀ w ∈ before, IsWord w := fun w hw => hws w (List.mem_append_left _ hw)
  by_cases hstem : stem = []
  · subst hstem
    have hwords : words (unwords (before ++ [[]])) = before := by
      have hblank : ∀ w ∈ before ++ [[]], ∀ c ∈ w, isBlank c = false := by
        intro w hw
        rcases List.mem_append.mp hw with hw | hw
        · exact (hlead w hw).2
        · simp [List.mem_singleton.mp hw]
      rw [words_unwords hblank, List.filter_append,
        List.filter_eq_self.mpr fun w hw => by simpa using (hlead w hw).1]
      simp
    rw [hwords] at hname
    obtain ⟨modifiers, rfl⟩ := List.getLast?_eq_some_iff.mp hname
    exact ⟨modifiers, .inr (by simp), fun w hw => hbefore w (List.mem_append_left _ hw),
      hidentifier⟩
  · have hwords : words (unwords (before ++ [stem])) = before ++ [stem] := by
      refine words_unwords_of_isWord fun w hw => ?_
      rcases List.mem_append.mp hw with hw | hw
      · exact hlead w hw
      · rw [List.mem_singleton.mp hw]
        exact (hws (stem ++ '(' :: args) (by simp)).of_append hstem
    rw [hwords, List.getLast?_concat] at hname
    cases hname
    exact ⟨before, .inl rfl, hbefore, hidentifier⟩

theorem readMethod_of_malformed {ws : List (List Char)}
    (h : ∀ modifiers name args rest, ¬ MethodSignature ws modifiers name args rest)
    (hbody : words body = ws) (hws : ∀ w ∈ ws, IsWord w) :
    readMethod body = .invalid (.malformed "method" (String.ofList (unwords ws))) := by
  subst hbody
  by_cases hcall : '(' ∈ unwords (words body)
  · obtain ⟨before, stem, args, after, heq, hbefore, hstem⟩ := exists_call hcall
    rw [readMethod_of_call heq hbefore hstem rfl]
    cases hname : (words (unwords (before ++ [stem]))).getLast? with
    | none => rfl
    | some name =>
      -- an identifier before the parenthesis would make the words a signature
      refine if_neg fun hidentifier => ?_
      rw [heq] at hws h
      obtain ⟨modifiers, hsig⟩ := methodSignature_of_call hws hbefore hname
        (isIdentifier_iff.mp hidentifier)
      exact h _ _ _ _ hsig
  · have hdrop : (unwords (words body)).dropWhile (· != '(') = [] := by
      rw [List.dropWhile_eq_nil_iff]
      rintro c hc
      rw [bne_iff_ne]
      rintro rfl
      exact hcall hc
    rw [readMethod]
    simp only [hdrop]

/-- The words of the normal form: those of the tag, but for a type. -/
theorem MethodSignature.isWord_typed {ws modifiers : List (List Char)} {name args : List Char}
    {rest : List (List Char)} (h : MethodSignature ws modifiers name args rest)
    (hws : ∀ w ∈ ws, IsWord w) :
    ∀ w ∈ withType modifiers ++ (name ++ '(' :: args) :: rest, IsWord w := by
  have hparts : (∀ w ∈ modifiers, IsWord w) ∧ IsWord (name ++ '(' :: args) ∧
      ∀ w ∈ rest, IsWord w := by
    rcases h.spelling with rfl | rfl
    · rw [List.forall_mem_append, List.forall_mem_cons] at hws
      exact hws
    · rw [List.forall_mem_append, List.forall_mem_cons, List.forall_mem_cons] at hws
      obtain ⟨hmodifiers, hname, hargs, hrest⟩ := hws
      refine ⟨hmodifiers, ⟨by simp, ?_⟩, hrest⟩
      exact List.forall_mem_append.mpr ⟨hname.2, hargs.2⟩
  obtain ⟨hmodifiers, hcall, hrest⟩ := hparts
  refine List.forall_mem_append.mpr ⟨?_, List.forall_mem_cons.mpr ⟨hcall, hrest⟩⟩
  rw [withType]
  split
  · exact List.forall_mem_append.mpr ⟨hmodifiers, by decide +kernel⟩
  · exact hmodifiers

/-! ### Tags -/

/-- What a tag gives by its words is what is read from its body. -/
theorem Gives.annotation?_eq {tag : List Char} {ws : List (List Char)} {note : Annotation}
    (h : Gives tag ws note) (hbody : words body = ws) (hws : ∀ w ∈ ws, IsWord w) :
    Tag.annotation? ⟨tag, body⟩ = some note := by
  have hparam : Tag.annotation? ⟨"param".toList, body⟩ = some (readParam body) := rfl
  have hreturn : Tag.annotation? ⟨"return".toList, body⟩ = some (readReturn body) := by
    simp [Tag.annotation?]
  have hmethod : Tag.annotation? ⟨"method".toList, body⟩ = some (readMethod body) := by
    simp [Tag.annotation?]
  cases h with
  | paramAlone => rw [hparam, readParam, hbody]
  | paramNamed hname =>
    rw [hparam, readParam, hbody]
    simp only [isVariable_iff.mpr hname.isVariable, hname.variableName_eq, if_true]
  | @paramTyped t ws ht hnext =>
    rw [hparam, readParam, hbody]
    cases ws with
    | nil => simp [isVariable_eq_false ht]
    | cons w ws => simp [isVariable_eq_false ht, isVariable_eq_false (hnext w rfl)]
  | paramInFull ht hname =>
    rw [hparam, readParam, hbody]
    simp [isVariable_eq_false ht, isVariable_iff.mpr hname.isVariable, hname.variableName_eq]
  | returnAlone => rw [hreturn, readReturn, hbody]; rfl
  | returnTyped => rw [hreturn, readReturn, hbody]; rfl
  | method h => rw [hmethod, readMethod_of_signature h hbody hws]
  | methodMalformed h => rw [hmethod, readMethod_of_malformed h hbody hws]

theorem annotation?_eq_none {tag : List Char} (h : tag ∉ understood) (body : List Char) :
    Tag.annotation? ⟨tag, body⟩ = none := by
  simp only [understood, List.mem_cons, List.not_mem_nil, or_false, not_or] at h
  simp only [Tag.annotation?, h, if_false]

/-- A tag that is understood gives something, whatever its words. -/
theorem exists_gives {tag : List Char} (h : tag ∈ understood) (ws : List (List Char)) :
    ∃ note, Gives tag ws note := by
  simp only [understood, List.mem_cons, List.not_mem_nil, or_false] at h
  rcases h with rfl | rfl | rfl
  · match ws with
    | [] => exact ⟨_, .paramAlone⟩
    | t :: ws =>
      by_cases ht : IsVariable t
      · obtain ⟨name, hname⟩ := exists_names (isVariable_iff.mpr ht)
        exact ⟨_, .paramNamed hname⟩
      · by_cases hws : ∀ w ∈ ws.head?, ¬ IsVariable w
        · exact ⟨_, .paramTyped ht hws⟩
        · match ws, hws with
          | [], hws => simp at hws
          | w :: ws, hws =>
            obtain ⟨name, hname⟩ := exists_names (isVariable_iff.mpr (by simpa using hws))
            exact ⟨_, .paramInFull ht hname⟩
  · cases ws with
    | nil => exact ⟨_, .returnAlone⟩
    | cons t ws => exact ⟨_, .returnTyped⟩
  · by_cases hsig : ∃ modifiers name args rest, MethodSignature ws modifiers name args rest
    · obtain ⟨modifiers, name, args, rest, hsig⟩ := hsig
      exact ⟨_, .method hsig⟩
    · exact ⟨_, .methodMalformed (by simpa using hsig)⟩

/-- Every annotation of a block is given by the words of a tag. -/
theorem exists_gives_of_mem {doc : String} {note : Annotation} (h : note ∈ annotations doc) :
    ∃ tag ws, Gives tag ws note ∧ ∀ w ∈ ws, IsWord w := by
  obtain ⟨⟨name, body⟩, -, hnote⟩ := List.mem_filterMap.mp h
  have hwords : ∀ w ∈ words body, IsWord w := fun w hw => isWord_of_mem_words hw
  have hname : name ∈ understood := by
    by_contra hout
    rw [annotation?_eq_none hout] at hnote
    cases hnote
  obtain ⟨note', hgives⟩ := exists_gives hname (words body)
  rw [hgives.annotation?_eq rfl hwords] at hnote
  cases hnote
  exact ⟨name, words body, hgives, hwords⟩

end ClassSurface.DocBlock
