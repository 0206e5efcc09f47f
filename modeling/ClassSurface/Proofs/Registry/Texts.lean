import ClassSurface.Proofs.DocBlock.Grammar
import ClassSurface.Proofs.Text.Paragraphs
import ClassSurface.Registry.Merge

/-! # Proofs.Registry.Texts — signatures are single lines

A signature is put together from texts: those of its declaration, those of the annotations, and the
return type that it inherits. `texts` lists them for each kind of record. Where none of them is
broken, the signature is not.

* `Signature.oneLine_text`: what is written between the texts of a signature is in one line.
* `DocBlock.linewise_reader`: what a documentation block gives is in one line, however many lines
  the block has.
* `oneLine_texts_mergeMethod`: merging brings in no other texts.
-/

namespace ClassSurface

open Text

/-! ### The texts of a declaration -/

/-- The texts of a value, as far as they are shown. -/
def DefaultValue.texts : DefaultValue → List String
  | string value => [value]
  | object className => [className]
  | _ => []

def ParameterDecl.texts (p : ParameterDecl) : List String :=
  p.name :: p.typeHint.toList ++ p.default.texts

def MethodDecl.texts (m : MethodDecl) : List String :=
  m.name :: m.returnType.toList ++ m.parameters.flatMap ParameterDecl.texts

/-- The texts of a declaration, its documentation left out. -/
def ClassDecl.texts (d : ClassDecl) : List String :=
  d.name :: d.parent.toList ++ d.interfaces ++ d.methods.flatMap MethodDecl.texts

/-! ### Numbers -/

theorem feed_not_mem_toDigits (n : Nat) : '\n' ∉ Nat.toDigits 10 n := fun h =>
  absurd (Nat.isDigit_of_mem_toDigits (by decide) (by decide) h) (by decide)

theorem oneLine_toString_int (n : Int) : OneLine (toString n) := by
  have hrepr : ∀ m : Nat, OneLine m.repr := by
    intro m
    rw [Nat.repr_eq_ofList_toDigits, oneLine_ofList]
    exact feed_not_mem_toDigits m
  rw [Int.toString_eq_repr]
  cases n with
  | ofNat m => exact hrepr m
  | negSucc m => exact oneLine_append.mpr ⟨by decide, hrepr _⟩

theorem Decimal.feed_not_mem_positionalText {digits : List Char} (h : '\n' ∉ digits)
    (keepFraction : Bool) (point : Int) : '\n' ∉ positionalText keepFraction digits point := by
  have hwhole : '\n' ∉ digits.take point.toNat ++
      List.replicate (point.toNat - digits.length) '0' := by
    simpa using fun hmem => h (List.mem_of_mem_take hmem)
  have hfraction : '\n' ∉ digits.drop point.toNat := fun hmem => h (List.mem_of_mem_drop hmem)
  dsimp only [positionalText]
  split
  · simp [h]
  · split
    · cases keepFraction <;> simpa using hwhole
    · rw [List.mem_append, not_or]
      exact ⟨hwhole, by simpa using hfraction⟩

theorem Decimal.feed_not_mem_text_plain (d : Decimal) : '\n' ∉ d.text .plain :=
  feed_not_mem_positionalText (feed_not_mem_toDigits _) _ _

theorem Float64.oneLine_text (x : Float64) : OneLine (x.text .plain) := by
  cases x with
  | finite x =>
    rw [text, Binary64.text, oneLine_ofList, List.mem_append, not_or]
    exact ⟨by cases x.negative <;> decide, Decimal.feed_not_mem_text_plain _⟩
  | infinity negative => cases negative <;> decide
  | nan => decide

theorem DefaultValue.oneLine_text {value : DefaultValue} (h : ∀ t ∈ value.texts, OneLine t) :
    OneLine value.text := by
  cases value with
  | null => decide
  | bool b => cases b <;> decide
  | int n => exact oneLine_toString_int _
  | float x => exact x.oneLine_text
  | string s =>
    rw [text, oneLine_append, oneLine_append]
    exact ⟨⟨by decide, h s List.mem_cons_self⟩, by decide⟩
  | array items =>
    cases items with
    | nil => decide
    | cons => exact (by decide : OneLine "array(???)")
  | object className => exact h className List.mem_cons_self

/-! ### Parameters and signatures -/

def Parameter.texts (p : Parameter) : List String :=
  p.typeHint :: p.name :: p.default.toList.flatMap DefaultValue.texts

def Signature.texts (s : Signature) : List String :=
  s.returnType :: s.name :: s.parameters.flatMap Parameter.texts

theorem Parameter.oneLine_text {p : Parameter} (h : ∀ t ∈ p.texts, OneLine t) : OneLine p.text := by
  rw [texts, List.forall_mem_cons, List.forall_mem_cons] at h
  obtain ⟨htype, hname, hdefault⟩ := h
  have hvariadic : OneLine (if p.isVariadic then "..." else "") := by split <;> decide
  have hreference : OneLine (if p.byReference then "&" else "") := by split <;> decide
  simp only [text, oneLine_append, and_assoc]
  refine ⟨htype, by decide, hvariadic, hreference, by decide, hname, ?_⟩
  split
  · decide
  · rename_i value hd
    rw [hd] at hdefault
    exact oneLine_append.mpr ⟨by decide, DefaultValue.oneLine_text (by simpa using hdefault)⟩

theorem Signature.oneLine_parameterList {ps : List Parameter}
    (h : ∀ p ∈ ps, ∀ t ∈ p.texts, OneLine t) : OneLine (parameterList ps) := by
  have hopened : ∀ l ∈ ps.map openedText, OneLine l := by
    refine List.forall_mem_map.mpr fun p hp => oneLine_append.mpr ⟨?_, p.oneLine_text (h p hp)⟩
    split <;> decide
  rw [parameterList, oneLine_append, oneLine_ofList]
  exact ⟨oneLine_intercalate (by decide) hopened,
    fun hmem => absurd (List.eq_of_mem_replicate hmem) (by decide)⟩

theorem Signature.oneLine_text {s : Signature} (h : ∀ t ∈ s.texts, OneLine t) (inInterface : Bool) :
    OneLine (s.text inInterface) := by
  rw [texts, List.forall_mem_cons, List.forall_mem_cons, List.forall_mem_flatMap] at h
  obtain ⟨hreturn, hname, hparameters⟩ := h
  have hvisibility : OneLine s.visibility.text := by cases s.visibility <;> decide
  have hstatic : OneLine (if s.isStatic then "static " else "") := by split <;> decide
  have habstract : OneLine (if s.isAbstract && !inInterface then "abstract " else "") := by
    split <;> decide
  simp only [text, oneLine_append, and_assoc]
  exact ⟨hreturn, by decide, hvisibility, by decide, hstatic, habstract, hname, by decide,
    oneLine_parameterList hparameters, by decide⟩

theorem Signature.text_ne_empty (s : Signature) (inInterface : Bool) : s.text inInterface ≠ "" := by
  rw [text]
  exact fun h => absurd (String.append_eq_empty_iff.mp h).2 (by decide)

/-! ### Annotations -/

/-- The texts that an annotation brings along; of a tag that cannot be read nothing is shown. -/
def Annotation.texts : Annotation → List String
  | param typeHint name => [typeHint, name]
  | result typeHint => [typeHint]
  | method name rendered => [name, rendered]
  | invalid _ => []

/-- The texts of the annotation are in one line, and it shows no method by an empty one. -/
def Annotation.Linewise (note : Annotation) : Prop :=
  (∀ t ∈ note.texts, OneLine t) ∧ ∀ name, note ≠ .method name ""

theorem Annotation.linewise_param {typeHint name : String} (htype : OneLine typeHint)
    (hname : OneLine name) : (param typeHint name).Linewise :=
  ⟨by simp [texts, htype, hname], by simp⟩

theorem Annotation.linewise_result {typeHint : String} (htype : OneLine typeHint) :
    (result typeHint).Linewise :=
  ⟨by simpa [texts] using htype, by simp⟩

namespace DocBlock

theorem Names.feed_not_mem {w name : List Char} (h : Names w name) (hw : '\n' ∉ w) :
    '\n' ∉ name := by
  obtain ⟨marks, dollars, rfl, -⟩ := h
  intro hmem
  exact hw (by simp [hmem])

theorem MethodSignature.feed_not_mem {ws modifiers : List (List Char)} {name args : List Char}
    {rest : List (List Char)} (h : MethodSignature ws modifiers name args rest)
    (hws : ∀ w ∈ ws, IsWord w) :
    '\n' ∉ name ∧ '\n' ∉ unwords (withType modifiers ++ (name ++ '(' :: args) :: rest) := by
  have htyped := h.isWord_typed hws
  refine ⟨fun hmem => ?_, fun hmem => ?_⟩
  · have hcall : IsWord (name ++ '(' :: args) := htyped _ (by simp)
    exact hcall.feed_not_mem (List.mem_append_left _ hmem)
  · rcases mem_unwords hmem with hspace | ⟨w, hw, hmem⟩
    · exact absurd hspace (by decide)
    · exact (htyped w hw).feed_not_mem hmem

/-- What a tag gives is in one line if its words are. -/
theorem Gives.linewise {tag : List Char} {ws : List (List Char)} {note : Annotation}
    (h : Gives tag ws note) (hws : ∀ w ∈ ws, IsWord w) : note.Linewise := by
  have hempty : OneLine "" := by decide
  have hfeed : ∀ w ∈ ws, '\n' ∉ w := fun w hw => (hws w hw).feed_not_mem
  cases h with
  | paramAlone => exact Annotation.linewise_param hempty hempty
  | paramNamed hname =>
    exact Annotation.linewise_param hempty
      (oneLine_ofList.mpr (hname.feed_not_mem (hfeed _ List.mem_cons_self)))
  | paramTyped =>
    exact Annotation.linewise_param (oneLine_ofList.mpr (hfeed _ List.mem_cons_self)) hempty
  | paramInFull _ hname =>
    obtain ⟨htype, hrest⟩ := List.forall_mem_cons.mp hfeed
    exact Annotation.linewise_param (oneLine_ofList.mpr htype)
      (oneLine_ofList.mpr (hname.feed_not_mem (hrest _ List.mem_cons_self)))
  | returnAlone => exact Annotation.linewise_result hempty
  | returnTyped =>
    exact Annotation.linewise_result (oneLine_ofList.mpr (hfeed _ List.mem_cons_self))
  | @method _ modifiers name args rest hsig =>
    obtain ⟨hname, htext⟩ := hsig.feed_not_mem hws
    refine ⟨by simp [ Annotation.texts, hname, htext], ?_⟩
    -- at least the parenthesis is written
    have hne : unwords (withType modifiers ++ (name ++ '(' :: args) :: rest) ≠ [] := by
      obtain ⟨after, hafter⟩ := isPrefix_unwords ('(' :: args) rest
      rw [unwords_cut, ← hafter]
      simp
    simpa [String.ofList_eq_empty_iff] using hne
  | methodMalformed => exact ⟨by simp [ Annotation.texts], by simp⟩

/-- Bodies are read word by word, and no word has a line feed in it. -/
theorem linewise_of_mem_annotations {doc : String} {note : Annotation}
    (h : note ∈ annotations doc) : note.Linewise := by
  obtain ⟨tag, ws, hgives, hws⟩ := exists_gives_of_mem h
  exact hgives.linewise hws

end DocBlock

/-- Documentation is read into texts of one line. -/
def DocReader.Linewise (docs : DocReader) : Prop :=
  ∀ doc, ∀ note ∈ usableAnnotations docs doc, note.Linewise

theorem DocBlock.linewise_reader : reader.Linewise := by
  rintro (_ | doc) note hnote
  · cases hnote
  · exact linewise_of_mem_annotations hnote

/-! ### Merging -/

theorem oneLine_getD {o : Option String} {s : String} (ho : ∀ t ∈ o, OneLine t) (hs : OneLine s) :
    OneLine (o.getD s) := by
  cases o with
  | none => exact hs
  | some t => exact ho t rfl

theorem Parameter.oneLine_texts_ofDecl {p : ParameterDecl} (h : ∀ t ∈ p.texts, OneLine t) :
    ∀ t ∈ (ofDecl p).texts, OneLine t := by
  rw [ParameterDecl.texts, List.cons_append, List.forall_mem_cons, List.forall_mem_append] at h
  obtain ⟨hname, htype, hdefault⟩ := h
  have htype : OneLine (p.typeHint.getD "") := oneLine_getD (by simpa using htype) (by decide)
  rw [texts, List.forall_mem_cons, List.forall_mem_cons]
  refine ⟨htype, hname, ?_⟩
  dsimp only [ofDecl]
  split
  · simpa using hdefault
  · simp

theorem Parameter.oneLine_texts_annotate {p : Parameter} (h : ∀ t ∈ p.texts, OneLine t)
    {typeHint name : String} (htype : OneLine typeHint) (hname : OneLine name) :
    ∀ t ∈ (p.annotate typeHint name).texts, OneLine t := by
  rw [texts, List.forall_mem_cons, List.forall_mem_cons] at h ⊢
  refine ⟨?_, ?_, h.2.2⟩
  · dsimp only [annotate]
    split
    · exact h.1
    · exact htype
  · dsimp only [annotate]
    split
    · exact h.2.1
    · exact hname

section Notes

variable {notes : List Annotation} (hnotes : ∀ note ∈ notes, note.Linewise)
include hnotes

theorem oneLine_texts_mergeParams {ps : List Parameter} (hps : ∀ p ∈ ps, ∀ t ∈ p.texts, OneLine t) :
    ∀ p ∈ mergeParams notes ps, ∀ t ∈ p.texts, OneLine t := by
  fun_induction mergeParams notes ps with
  | case1 => simp
  | case2 => exact hps
  | case3 typeHint name notes p ps ih =>
    obtain ⟨⟨hnote, -⟩, hnotes⟩ := List.forall_mem_cons.mp hnotes
    obtain ⟨hp, hps⟩ := List.forall_mem_cons.mp hps
    have hannotated := p.oneLine_texts_annotate hp (hnote typeHint (by simp [ Annotation.texts]))
      (hnote name (by simp [ Annotation.texts]))
    exact List.forall_mem_cons.mpr ⟨hannotated, ih hnotes hps⟩
  | case4 note notes p ps _ ih => exact ih (List.forall_mem_cons.mp hnotes).2 hps

theorem oneLine_annotatedReturn : ∀ t ∈ annotatedReturn notes, OneLine t := by
  intro t ht
  obtain ⟨note, hmem, hnote⟩ := List.mem_filterMap.mp (List.mem_of_getLast? ht)
  have htexts := (hnotes note hmem).1
  cases note with
  | result typeHint =>
    rw [ Annotation.returnType?] at hnote
    split at hnote
    · cases hnote
    · split at hnote
      · cases hnote
        decide
      · cases hnote
        exact htexts _ (by simp [ Annotation.texts])
  | _ => cases hnote

theorem oneLine_mergeReturn {m : MethodDecl} (hm : ∀ t ∈ m.returnType, OneLine t)
    {inherited : Option String} (hinherited : ∀ t ∈ inherited, OneLine t) :
    OneLine (mergeReturn notes m inherited) := by
  rw [mergeReturn]
  split
  · rename_i typeHint htype
    exact oneLine_annotatedReturn hnotes typeHint htype
  · split
    · decide
    · dsimp only
      split
      · exact oneLine_getD hinherited (by decide)
      · exact oneLine_getD hm (by decide)

end Notes

/-- Merging brings in no text that is broken. -/
theorem oneLine_texts_mergeMethod {docs : DocReader} (hdocs : docs.Linewise) {m : MethodDecl}
    (hm : ∀ t ∈ m.texts, OneLine t) {inherited : Option String}
    (hinherited : ∀ t ∈ inherited, OneLine t) (owner : ClassId) :
    ∀ t ∈ (mergeMethod docs owner m inherited).texts, OneLine t := by
  rw [MethodDecl.texts, List.cons_append, List.forall_mem_cons, List.forall_mem_append,
    List.forall_mem_flatMap] at hm
  obtain ⟨hname, hreturn, hparameters⟩ := hm
  have hnotes := hdocs m.docComment
  rw [Signature.texts, List.forall_mem_cons, List.forall_mem_cons, List.forall_mem_flatMap]
  refine ⟨oneLine_mergeReturn hnotes (by simpa using hreturn) hinherited, hname,
    oneLine_texts_mergeParams hnotes ?_⟩
  exact List.forall_mem_map.mpr fun p hp => Parameter.oneLine_texts_ofDecl (hparameters p hp)

end ClassSurface
