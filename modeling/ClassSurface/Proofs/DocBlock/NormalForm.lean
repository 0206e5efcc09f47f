import ClassSurface.Proofs.DocBlock.Layout
import Mathlib.Data.List.Chain

/-! # Proofs.DocBlock.NormalForm — method tags in normal form

Of a method tag the reader keeps the name and a text in normal form: single spaces, a type before
the name, nothing between the name and its parenthesis.

* `MethodSignature.typed`: the words of the normal form are a signature again, with all that the
  words of the tag had.
* `tags_oneLiner`: a tag alone in a block of one line is read as it is written.
* `method_normal_form`: so the normal form, put into a block of its own, is read as itself.
-/

namespace ClassSurface.DocBlock

open Text

/-! ### Spacing -/

/-- The blanks of the text are single spaces between characters that are not blank. -/
structure SingleSpaced (s : List Char) : Prop where
  space : ∀ c ∈ s, isBlank c = true → c = ' '
  head : ∀ c ∈ s.head?, isBlank c = false
  last : ∀ c ∈ s.getLast?, isBlank c = false
  apart : s.IsChain fun c d => isBlank c = false ∨ isBlank d = false

theorem isChain_of_isWord {w : List Char} (h : IsWord w) :
    w.IsChain fun c d => isBlank c = false ∨ isBlank d = false := by
  refine List.Pairwise.isChain (List.pairwise_of_forall_mem_list fun c hc d _ => ?_)
  exact .inl (h.2 c hc)

theorem singleSpaced_unwords {ws : List (List Char)} (h : ∀ w ∈ ws, IsWord w) :
    SingleSpaced (unwords ws) := by
  refine ⟨fun c hc hblank => ?_, isBlank_of_head?_unwords h, isBlank_of_getLast?_unwords h, ?_⟩
  · rcases mem_unwords hc with hspace | ⟨w, hw, hc⟩
    · exact hspace
    · rw [(h w hw).2 c hc] at hblank
      cases hblank
  · induction ws with
    | nil => exact List.isChain_nil
    | cons w ws ih =>
      obtain ⟨hw, hws⟩ := List.forall_mem_cons.mp h
      cases ws with
      | nil =>
        rw [unwords_singleton]
        exact isChain_of_isWord hw
      | cons w' ws =>
        -- on either side of the space there is a character of a word
        rw [unwords_cons_cons, List.isChain_append]
        refine ⟨isChain_of_isWord hw, ?_, ?_⟩
        · refine List.isChain_cons.mpr ⟨fun d hd => .inr ?_, ih hws⟩
          exact isBlank_of_head?_unwords hws d hd
        · intro c hc d _
          exact .inl (hw.2 c (List.mem_of_mem_getLast? hc))

/-! ### Signatures -/

theorem withType_ne_static (modifiers : List (List Char)) :
    withType modifiers ≠ ["static".toList] := by
  rw [withType]
  split
  · rename_i h
    rcases h with rfl | rfl <;> decide
  · rename_i h
    exact fun hstatic => h (.inr hstatic)

theorem withType_withType (modifiers : List (List Char)) :
    withType (withType modifiers) = withType modifiers := by
  rw [withType, if_neg]
  rintro (h | h)
  · exact withType_ne_nil modifiers h
  · exact withType_ne_static modifiers h

/-- The normal form of a signature is a signature. -/
theorem MethodSignature.typed {ws modifiers : List (List Char)} {name args : List Char}
    {rest : List (List Char)} (h : MethodSignature ws modifiers name args rest) :
    MethodSignature (withType modifiers ++ (name ++ '(' :: args) :: rest) (withType modifiers) name
      args rest := by
  refine ⟨.inl rfl, ?_, h.identifier⟩
  rw [withType]
  split
  · exact List.forall_mem_append.mpr ⟨h.first, by decide⟩
  · exact h.first

/-- The normal form is cut in three: the words before the name, the name, and the rest, which
starts with the first parenthesis. -/
theorem MethodSignature.exists_lead {ws modifiers : List (List Char)} {name args : List Char}
    {rest : List (List Char)} (h : MethodSignature ws modifiers name args rest)
    (hws : ∀ w ∈ ws, IsWord w) :
    ∃ lead more, unwords (withType modifiers ++ (name ++ '(' :: args) :: rest) =
        lead ++ ' ' :: name ++ '(' :: more ∧ '(' ∉ lead ++ ' ' :: name ∧ words lead ≠ [] ∧
      lead ≠ "static".toList := by
  have hlead : words (unwords (withType modifiers)) = withType modifiers :=
    words_unwords_of_isWord fun w hw => h.isWord_typed hws w (List.mem_append_left _ hw)
  obtain ⟨after, hafter⟩ := isPrefix_unwords ('(' :: args) rest
  refine ⟨unwords (withType modifiers), args ++ after, ?_, ?_, ?_, ?_⟩
  · rw [unwords_cut, unwords_append (withType_ne_nil _) (List.cons_ne_nil _ _), unwords_singleton,
      ← hafter, List.cons_append]
  · intro hmem
    rcases List.mem_append.mp hmem with hmem | hmem
    · rcases mem_unwords hmem with hspace | ⟨w, hw, hc⟩
      · exact absurd hspace (by decide)
      · exact h.typed.first w hw hc
    · rcases List.mem_cons.mp hmem with hspace | hmem
      · exact absurd hspace (by decide)
      · exact h.identifier.not_mem hmem
  · rw [hlead]
    exact withType_ne_nil modifiers
  · intro hstatic
    refine withType_ne_static modifiers ?_
    rw [← hlead, hstatic]
    decide

/-! ### Blocks of one line -/

/-- A block with all its text on one line. -/
def oneLiner (s : List Char) : List Char := ['/', '*', '*', ' '] ++ s ++ [' ', '*', '/']

theorem trim_oneLiner (s : List Char) : trim (oneLiner s) = oneLiner s := by
  have hhead : (oneLiner s).head? = some '/' := rfl
  have hlast : (oneLiner s).getLast? = some '/' := by
    rw [oneLiner, List.getLast?_append_of_ne_nil _ (List.cons_ne_nil _ _)]
    rfl
  have hblank : isBlank '/' = false := by decide
  refine trim_eq_self ?_ ?_
  · simp [hhead, hblank]
  · simp [hlast, hblank]

/-- Without its decoration, a block of one line is the text in it. -/
theorem undecorate_oneLiner {s : List Char} (hne : s ≠ [])
    (hhead : ∀ c ∈ s.head?, isBlank c = false) (hlast : ∀ c ∈ s.getLast?, isBlank c = false)
    (hstar : s.head? ≠ some '*') : undecorate (oneLiner s) = s := by
  have hopening : stripPrefix? ['/', '*', '*'] (oneLiner s) = some (' ' :: s ++ [' ', '*', '/']) :=
    rfl
  have hclosing : stripSuffix? ['*', '/'] (' ' :: s ++ [' ', '*', '/']) =
      some (' ' :: s ++ [' ']) :=
    stripSuffix?_eq_some_iff.mpr (by simp)
  obtain ⟨c, r, rfl⟩ := List.exists_cons_of_ne_nil hne
  have hstart : trimStart (' ' :: (c :: r) ++ [' ']) = c :: r ++ [' '] := by
    rw [List.cons_append, trimStart_cons_blank (by decide)]
    exact List.dropWhile_cons_of_neg (by simp [hhead c rfl])
  have hplain : stripPrefix? ['*'] (c :: r ++ [' ']) = none := by
    have hc : '*' ≠ c := fun h => hstar (by rw [h]; rfl)
    rw [List.cons_append, stripPrefix?, if_neg hc]
  rw [undecorate, trim_oneLiner, hopening, Option.getD_some, hclosing, Option.getD_some, hstart,
    hplain, Option.getD_none, trim_append_blank (by decide), trim_eq_self hhead hlast]

/-- A tag alone in a block of one line is read as it is written. -/
theorem tags_oneLiner (name : Word) (ws : List Word) :
    tags (oneLiner ('@' :: sentence (name :: ws))) = [⟨name.1, sentence ws⟩] := by
  have hfeed : ∀ k ∈ [] ++ [oneLiner ('@' :: sentence (name :: ws))], '\n' ∉ k := by
    simpa [oneLiner] using not_mem_sentence (name :: ws)
  have hlines : lines (oneLiner ('@' :: sentence (name :: ws))) =
      [oneLiner ('@' :: sentence (name :: ws))] := by
    have := lines_intercalate (List.cons_ne_nil _ _) hfeed
    rwa [List.nil_append, List.intercalate_singleton] at this
  have hbare : undecorate (oneLiner ('@' :: sentence (name :: ws))) =
      '@' :: sentence (name :: ws) :=
    undecorate_oneLiner (List.cons_ne_nil _ _) (by simpa using by decide)
      (isBlank_of_getLast?_tag name ws) (by simp)
  rw [tags, hlines, List.map_singleton, Function.comp_apply, hbare, ofText_tag]
  simp [tagsOf, leadingText]

/-! ### The normal form is read as itself -/

/-- A method tag alone in a block has the words that are written after it. -/
theorem tags_method {ws : List (List Char)} (hne : ws ≠ []) (hws : ∀ w ∈ ws, IsWord w) :
    tags ("/** @method " ++ String.ofList (unwords ws) ++ " */").toList =
      [⟨"method".toList, unwords ws⟩] := by
  obtain ⟨ws, rfl⟩ : ∃ ws' : List Word, ws'.map (·.1) = ws :=
    ⟨ws.attachWith IsWord hws, by simp⟩
  have hsentence : sentence (word "method" :: ws) = "method".toList ++ ' ' :: sentence ws := by
    obtain ⟨w, ws, rfl⟩ := List.exists_cons_of_ne_nil (mt List.map_eq_nil_iff.mpr hne)
    exact unwords_cons_cons _ _ _
  have htext : ("/** @method " ++ String.ofList (sentence ws) ++ " */").toList =
      oneLiner ('@' :: sentence (word "method" :: ws)) := by
    rw [hsentence]
    simp [oneLiner]
  exact htext ▸ tags_oneLiner (word "method") ws

/-- **Method tags are normalised once and for all**: whatever a block says, the text that is kept of
a method tag names the method by an identifier, is single-spaced, has a type before the name, and
says the same when it is read again. -/
theorem method_normal_form {doc name rendered : String} {notes : List Annotation}
    (hread : reader doc = .ok notes) (h : .method name rendered ∈ notes) :
    IsIdentifier name.toList ∧ SingleSpaced rendered.toList ∧
      (∃ lead args, rendered.toList = lead ++ ' ' :: name.toList ++ '(' :: args ∧
        '(' ∉ lead ++ ' ' :: name.toList ∧ words lead ≠ [] ∧ lead ≠ "static".toList) ∧
      reader ("/** @method " ++ rendered ++ " */") = .ok [.method name rendered] := by
  cases hread
  obtain ⟨tag, ws, hgives, hws⟩ := exists_gives_of_mem h
  cases hgives with
  | @method _ modifiers name args rest hsig =>
    have htyped := hsig.isWord_typed hws
    have htags := tags_method (by simp) htyped
    have hagain := (Gives.method hsig.typed).annotation?_eq (words_unwords_of_isWord htyped) htyped
    rw [withType_withType] at hagain
    rw [String.toList_ofList, String.toList_ofList]
    refine ⟨hsig.identifier, singleSpaced_unwords htyped, hsig.exists_lead hws, ?_⟩
    rw [reader, annotations, htags, List.filterMap_cons_some hagain, List.filterMap_nil]

/-- A static method without a type, over two lines and with a closing mark in its text. -/
theorem method_normal_form_of :
    reader "/** @method static\n * of (\t$x)  */\t@b\n */" =
        .ok [.method "of" "static void of( $x) */ @b"] ∧
      IsIdentifier "of".toList ∧ SingleSpaced "static void of( $x) */ @b".toList ∧
      (∃ lead args, "static void of( $x) */ @b".toList =
          lead ++ ' ' :: "of".toList ++ '(' :: args ∧
        '(' ∉ lead ++ ' ' :: "of".toList ∧ words lead ≠ [] ∧ lead ≠ "static".toList) ∧
      reader ("/** @method " ++ "static void of( $x) */ @b" ++ " */") =
        .ok [.method "of" "static void of( $x) */ @b"] := by
  have hread : reader "/** @method static\n * of (\t$x)  */\t@b\n */" =
      .ok [.method "of" "static void of( $x) */ @b"] := by
    decide +kernel
  exact ⟨hread, method_normal_form hread List.mem_cons_self⟩

end ClassSurface.DocBlock
